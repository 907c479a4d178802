import GoErp.Lib.Hex

/-!
# `Lib.JsonText` — the text of a JSON array

Strings are quoted and escaped, and the elements of an array stand between brackets, separated by commas. The text of
an array gives back its elements if what stands for one element can be told from what follows it (`Delimited`): a
quoted string ends with the first quotation mark that is not escaped, and a text without commas and brackets (a number
or a name) ends with the first of these.
-/

namespace GoErp.Lib.JsonText

open List

/-! ## Strings -/

def quotationMark : Char := Char.ofNat 34

def backslash : Char := Char.ofNat 92

/-- The characters that are escaped with a letter. -/
def letters : List (Char × Char) :=
  [(quotationMark, quotationMark), (backslash, backslash), (Char.ofNat 8, 'b'), (Char.ofNat 12, 'f'), ('\n', 'n'),
    ('\r', 'r'), ('\t', 't')]

/-- A control character without a letter is written by its code. -/
def escape (c : Char) : List Char :=
  match letters.find? fun x => x.1 = c with
  | some x => [backslash, x.2]
  | none =>
    if c.toNat < 32 then [backslash, 'u', '0', '0', Hex.digit (c.toNat / 16), Hex.digit (c.toNat % 16)] else [c]

/-- The first character of an escaped text, and the text after it. -/
def unescape : List Char → Option (Char × List Char)
  | [] => none
  | c :: cs =>
    if c ≠ backslash then some (c, cs)
    else match cs with
      | 'u' :: '0' :: '0' :: hi :: lo :: cs => do
        let h ← Hex.value hi
        let l ← Hex.value lo
        return (Char.ofNat (16 * h + l), cs)
      | e :: cs => (letters.find? fun x => x.2 = e).map fun x => (x.1, cs)
      | [] => none

theorem unescape_of_ne {c : Char} (h : c ≠ backslash) (cs : List Char) : unescape (c :: cs) = some (c, cs) := by
  simp only [unescape, if_pos h]

theorem unescape_letter {x : Char × Char} (h : x ∈ letters) (cs : List Char) :
    unescape (backslash :: x.2 :: cs) = some (x.1, cs) := by
  revert x
  simp only [letters, forall_mem_cons, not_mem_nil, false_imp_iff, implies_true, and_true]
  exact ⟨rfl, rfl, rfl, rfl, rfl, rfl, rfl⟩

/-- An escaped character is read back, whatever follows. -/
theorem unescape_escape (c : Char) (cs : List Char) : unescape (escape c ++ cs) = some (c, cs) := by
  unfold escape
  cases hx : letters.find? fun x => x.1 = c with
  | some x =>
    have hc : x.1 = c := by simpa using find?_some hx
    rw [← hc]
    exact unescape_letter (mem_of_find?_eq_some hx) cs
  | none =>
    show unescape ((if c.toNat < 32 then _ else [c]) ++ cs) = some (c, cs)
    split
    · -- the code of a control character has two digits
      have hhi : Hex.value (Hex.digit (c.toNat / 16)) = some (c.toNat / 16) := Hex.value_digit (by omega)
      have hlo : Hex.value (Hex.digit (c.toNat % 16)) = some (c.toNat % 16) := Hex.value_digit (by omega)
      simp only [cons_append, nil_append, unescape, ne_eq, not_true_eq_false, if_false, hhi, hlo, bind,
        Option.bind, pure, Nat.div_add_mod, Char.ofNat_toNat]
    · have hb : c ≠ backslash := fun h => find?_eq_none.mp hx (backslash, backslash) (by decide) (by simp [h])
      exact unescape_of_ne hb cs

/-- No escape begins with the mark that ends a string. -/
theorem escape_append_ne (c : Char) (cs rest : List Char) : escape c ++ cs ≠ quotationMark :: rest := by
  intro h
  have hread := unescape_escape c cs
  rw [h, unescape_of_ne (by decide)] at hread
  obtain ⟨hc, -⟩ := Prod.ext_iff.mp (Option.some.inj hread)
  rw [← (show quotationMark = c from hc)] at h
  exact absurd (List.cons.inj h).1 (by decide)

/-- A string with its quotation marks. -/
def quote (s : List Char) : List Char := quotationMark :: (s.flatMap escape ++ [quotationMark])

/-- A quoted string ends at its own mark. -/
theorem quote_append_inj {s t x y : List Char} (h : quote s ++ x = quote t ++ y) : s = t ∧ x = y := by
  have hbody : s.flatMap escape ++ quotationMark :: x = t.flatMap escape ++ quotationMark :: y := by
    simpa [quote] using h
  clear h
  induction s generalizing t with
  | nil =>
    cases t with
    | nil => exact ⟨rfl, (List.cons.inj hbody).2⟩
    | cons d t =>
      rw [flatMap_cons, append_assoc] at hbody
      exact absurd hbody.symm (escape_append_ne d _ x)
  | cons c s ih =>
    rw [flatMap_cons, append_assoc] at hbody
    cases t with
    | nil => exact absurd hbody (escape_append_ne c _ y)
    | cons d t =>
      rw [flatMap_cons, append_assoc] at hbody
      have hread := congrArg unescape hbody
      rw [unescape_escape, unescape_escape] at hread
      obtain ⟨rfl, hrest⟩ := Prod.ext_iff.mp (Option.some.inj hread)
      obtain ⟨rfl, hxy⟩ := ih hrest
      exact ⟨rfl, hxy⟩

/-! ## Arrays -/

/-- What follows an element begins with a comma or the closing bracket. -/
def Stop (c : Char) : Prop := c = ',' ∨ c = ']'

instance (c : Char) : Decidable (Stop c) := inferInstanceAs (Decidable (_ ∨ _))

/-- The text begins with a character that ends an element. -/
def Stops (x : List Char) : Prop := ∃ c cs, x = c :: cs ∧ Stop c

/-- A text without commas and brackets ends where they begin. -/
theorem plain_append_inj {u v x y : List Char} (hu : ∀ c ∈ u, ¬ Stop c) (hv : ∀ c ∈ v, ¬ Stop c) (hx : Stops x)
    (hy : Stops y) (h : u ++ x = v ++ y) : u = v ∧ x = y := by
  have hcut : ∀ {w z : List Char}, (∀ c ∈ w, ¬ Stop c) → Stops z →
      (w ++ z).takeWhile (fun c => !decide (Stop c)) = w := by
    rintro w _ hw ⟨c, cs, rfl, hc⟩
    rw [takeWhile_append_of_pos fun d hd => by simpa using hw d hd, takeWhile_cons_of_neg (by simpa using hc),
      append_nil]
  have huv : u = v := by rw [← hcut hu hx, h, hcut hv hy]
  rw [huv] at h
  exact ⟨huv, append_cancel_left h⟩

section

variable {α : Type}

def arrayRest (text : α → List Char) : List α → List Char
  | [] => [']']
  | a :: as => ',' :: (text a ++ arrayRest text as)

/-- The elements, separated by commas, between brackets. -/
def array (text : α → List Char) : List α → List Char
  | [] => ['[', ']']
  | a :: as => '[' :: (text a ++ arrayRest text as)

theorem stops_arrayRest (text : α → List Char) (as : List α) : Stops (arrayRest text as) := by
  cases as with
  | nil => exact ⟨']', [], rfl, .inr rfl⟩
  | cons a as => exact ⟨',', _, rfl, .inl rfl⟩

/-- The text of an element can be told from what follows it, and from the end of the array. -/
structure Delimited (text : α → List Char) : Prop where
  inj : ∀ a b x y, Stops x → Stops y → text a ++ x = text b ++ y → a = b ∧ x = y
  ne_stop : ∀ a x, Stops x → text a ++ x ≠ [']']

variable {text : α → List Char}

theorem Delimited.arrayRest_inj (htext : Delimited text) {as bs : List α}
    (h : arrayRest text as = arrayRest text bs) : as = bs := by
  induction as generalizing bs with
  | nil =>
    cases bs with
    | nil => rfl
    | cons b bs => exact absurd (List.cons.inj h).1 (by decide)
  | cons a as ih =>
    cases bs with
    | nil => exact absurd (List.cons.inj h).1 (by decide)
    | cons b bs =>
      obtain ⟨rfl, hrest⟩ := htext.inj a b _ _ (stops_arrayRest text as) (stops_arrayRest text bs) (List.cons.inj h).2
      rw [ih hrest]

/-- Arrays of delimited elements are read back. -/
theorem Delimited.array_injective (htext : Delimited text) : Function.Injective (array text) := by
  intro as bs h
  cases as with
  | nil =>
    cases bs with
    | nil => rfl
    | cons b bs => exact absurd (List.cons.inj h).2.symm (htext.ne_stop b _ (stops_arrayRest text bs))
  | cons a as =>
    cases bs with
    | nil => exact absurd (List.cons.inj h).2 (htext.ne_stop a _ (stops_arrayRest text as))
    | cons b bs =>
      obtain ⟨rfl, hrest⟩ := htext.inj a b _ _ (stops_arrayRest text as) (stops_arrayRest text bs) (List.cons.inj h).2
      rw [htext.arrayRest_inj hrest]

end

end GoErp.Lib.JsonText
