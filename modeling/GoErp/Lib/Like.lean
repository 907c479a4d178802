import Mathlib.Data.List.Infix

/-!
# `Lib.Like` — SQL's `LIKE`

A pattern is a list of items: `%` stands for any text, `_` for one character, and `\` takes the next character as it
is. A text between two `%` is searched as a substring exactly if it holds none of the three
(`like_substring_iff`): otherwise `sample` is a text the pattern accepts without the text in it.
-/

namespace GoErp.Lib.Like

open List

/-- An item of a pattern. -/
inductive Item where
  | any
  | one
  | char (c : Char)
  deriving DecidableEq, Repr

/-- A character of a pattern, outside an escape. -/
def item (c : Char) : Item := if c = '%' then .any else if c = '_' then .one else .char c

/-- The items of a pattern. One that ends in the escape character is an error. -/
def items : List Char → Option (List Item)
  | [] => some []
  | c :: cs =>
    if c = '\\' then
      match cs with
      | [] => none
      | d :: ds => (items ds).map (.char d :: ·)
    else (items cs).map (item c :: ·)

/-- Whether items accept a text. -/
def accepts : List Item → List Char → Bool
  | [], text => text.isEmpty
  | .any :: is, text => text.tails.any (accepts is)
  | .one :: _, [] => false
  | .one :: is, _ :: text => accepts is text
  | .char _ :: _, [] => false
  | .char c :: is, d :: text => c == d && accepts is text

/-- `text LIKE pattern` -/
def like (pattern text : List Char) : Bool := (items pattern).any fun is => accepts is text

/-- The character stands for itself in a pattern. -/
def plain (c : Char) : Bool := c ≠ '%' && c ≠ '_' && c ≠ '\\'

theorem items_cons {c : Char} (h : c ≠ '\\') (cs : List Char) : items (c :: cs) = (items cs).map (item c :: ·) := by
  rw [items.eq_def]
  exact if_neg h

variable {text : List Char}

/-- `%` accepts any beginning. -/
theorem accepts_any {is : List Item} : accepts (.any :: is) text = true ↔ ∃ s, s <:+ text ∧ accepts is s = true := by
  rw [accepts, List.any_eq_true]
  simp only [mem_tails]

/-! ## Plain texts -/

variable {w : List Char}

theorem items_plain (hw : w.all plain = true) (cs : List Char) :
    items (w ++ cs) = (items cs).map (w.map .char ++ ·) := by
  induction w with
  | nil => simp
  | cons c w ih =>
    rw [all_cons, Bool.and_eq_true] at hw
    obtain ⟨hc, hw⟩ := hw
    simp only [plain, Bool.and_eq_true, decide_eq_true_eq] at hc
    obtain ⟨⟨hany, hone⟩, hescape⟩ := hc
    have hitem : item c = .char c := by rw [item, if_neg hany, if_neg hone]
    rw [cons_append, items_cons hescape, hitem, ih hw, Option.map_map]
    rfl

theorem accepts_chars {is : List Item} :
    accepts (w.map .char ++ is) text = true ↔ ∃ rest, text = w ++ rest ∧ accepts is rest = true := by
  induction w generalizing text with
  | nil => simp
  | cons c w ih =>
    cases text with
    | nil => simp [accepts]
    | cons d text =>
      show (c == d && accepts (w.map .char ++ is) text) = true ↔ _
      rw [Bool.and_eq_true, beq_iff_eq, ih]
      constructor
      · rintro ⟨rfl, rest, rfl, hrest⟩
        exact ⟨rest, rfl, hrest⟩
      rintro ⟨rest, htext, hrest⟩
      obtain ⟨rfl, rfl⟩ := List.cons.inj htext
      exact ⟨rfl, rest, rfl, hrest⟩

/-- A pattern of plain characters between two `%` accepts the texts that contain it. -/
theorem like_plain (hw : w.all plain = true) : like ('%' :: w ++ ['%']) text = true ↔ w <:+: text := by
  have hitems : items ('%' :: w ++ ['%']) = some (.any :: (w.map .char ++ [.any])) := by
    rw [cons_append, items_cons (by decide), items_plain hw]
    rfl
  rw [like, hitems]
  show accepts (.any :: (w.map .char ++ [.any])) text = true ↔ _
  rw [accepts_any]
  constructor
  · rintro ⟨s, ⟨front, rfl⟩, hs⟩
    obtain ⟨rest, rfl, -⟩ := accepts_chars.mp hs
    exact ⟨front, rest, by rw [append_assoc]⟩
  rintro ⟨front, rest, rfl⟩
  refine ⟨w ++ rest, ⟨front, by rw [append_assoc]⟩, accepts_chars.mpr ⟨rest, rfl, ?_⟩⟩
  exact accepts_any.mpr ⟨[], rest.nil_suffix, rfl⟩

/-! ## Other texts -/

/-- A text that `%w%` accepts. -/
def sample : List Char → List Char
  | [] => []
  | c :: cs =>
    if c = '\\' then
      match cs with
      | [] => ['%'] -- the escape takes the pattern's last `%`
      | d :: ds => d :: sample ds
    else if c = '%' then sample cs
    else if c = '_' then 'x' :: sample cs
    else c :: sample cs

/-- A pattern with `%` after it can be read, and accepts its sample. -/
theorem accepts_sample (w : List Char) : ∃ is, items (w ++ ['%']) = some is ∧ accepts is (sample w) = true := by
  fun_induction sample w with
  | case1 => exact ⟨[.any], rfl, rfl⟩
  | case2 => exact ⟨[.char '%'], rfl, rfl⟩
  | case3 d ds ih =>
    obtain ⟨is, his, hacc⟩ := ih
    refine ⟨.char d :: is, ?_, ?_⟩
    · show (items (ds ++ ['%'])).map (.char d :: ·) = _
      rw [his]
      rfl
    show (d == d && accepts is (sample ds)) = true
    rw [hacc, beq_self_eq_true]
    rfl
  | case4 cs _ ih =>
    obtain ⟨is, his, hacc⟩ := ih
    refine ⟨.any :: is, ?_, accepts_any.mpr ⟨_, suffix_refl _, hacc⟩⟩
    rw [cons_append, items_cons (by decide), his]
    rfl
  | case5 cs _ _ ih =>
    obtain ⟨is, his, hacc⟩ := ih
    refine ⟨.one :: is, ?_, hacc⟩
    rw [cons_append, items_cons (by decide), his]
    rfl
  | case6 c cs hescape hany hone ih =>
    obtain ⟨is, his, hacc⟩ := ih
    refine ⟨.char c :: is, ?_, ?_⟩
    · rw [cons_append, items_cons hescape, his, item, if_neg hany, if_neg hone]
      rfl
    show (c == c && accepts is (sample cs)) = true
    rw [hacc, beq_self_eq_true]
    rfl

theorem length_sample_le (w : List Char) : (sample w).length ≤ w.length := by
  fun_induction sample w <;> simp only [length_cons, length_nil] at * <;> omega

/-- Every special character changes the text. -/
theorem plain_of_sample_eq (h : sample w = w) : w.all plain = true := by
  fun_induction sample w with
  | case1 => rfl
  | case2 => exact absurd h (by decide)
  | case3 d ds _ =>
    have hlen := congrArg List.length h
    have hle := length_sample_le ds
    simp only [length_cons] at hlen
    omega
  | case4 cs _ _ =>
    have hlen := congrArg List.length h
    have hle := length_sample_le cs
    simp only [length_cons] at hlen
    omega
  | case5 cs _ _ _ => exact absurd (List.cons.inj h).1 (by decide)
  | case6 c cs hescape hany hone ih =>
    rw [all_cons, ih (List.cons.inj h).2]
    simp [plain, hescape, hany, hone]

/-- **`LIKE '%w%'` searches for `w` exactly if no character of `w` is special.** -/
theorem like_substring_iff (w : List Char) :
    (∀ text, like ('%' :: w ++ ['%']) text = true ↔ w <:+: text) ↔ w.all plain = true := by
  refine ⟨fun h => plain_of_sample_eq ?_, fun hw _ => like_plain hw⟩
  obtain ⟨is, his, hacc⟩ := accepts_sample w
  have hlike : like ('%' :: w ++ ['%']) (sample w) = true := by
    have hitems : items ('%' :: w ++ ['%']) = some (.any :: is) := by
      rw [cons_append, items_cons (by decide), his]
      rfl
    rw [like, hitems]
    exact accepts_any.mpr ⟨_, suffix_refl _, hacc⟩
  -- the sample is not longer, so it holds `w` only if it is `w`
  exact (((h _).mp hlike).eq_of_length_le (length_sample_le w)).symm

end GoErp.Lib.Like
