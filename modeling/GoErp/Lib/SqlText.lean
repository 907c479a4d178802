import GoErp.Lib.SqlParse

/-!
# `Lib.SqlText` — printed SQL texts and the terms they denote

The rules a printer of SQL composes: `Operand lax t e` says that the text `t` is an operand denoting `e`
wherever it stands, `Inside lax t e` that it denotes `e` between parentheses or commas, and `Prim lax t e` that it
may also be cast. One rule for each construct puts the tokens of `Lib.SqlLex` and the readings of
`Lib.SqlParse` together, so that a printer is verified on its texts alone.
-/

namespace GoErp.Lib.Sql

open List

/-- An operand that ends in its own delimiter and may be followed by a cast. -/
def Prim (lax : Bool) (t : String) (e : Term) : Prop :=
  ∃ toks, Closed lax t.toList toks ∧
    ∀ n, toks.length ≤ n → ∀ rest, primary (expr n) (toks ++ rest) = some (e, rest)

/-- The text denotes the term wherever an operand may stand. -/
def Operand (lax : Bool) (t : String) (e : Term) : Prop :=
  ∃ toks, LexesTo lax t.toList toks ∧ ∀ n, toks.length ≤ n → Reads n toks e

/-- The text denotes the term between parentheses. -/
def Inside (lax : Bool) (t : String) (e : Term) : Prop :=
  ∃ toks, LexesTo lax t.toList toks ∧ ∀ n, toks.length < n → ReadsInside n toks e

variable {lax : Bool} {t l r : String} {a b e : Term}

/-- An operand needs no parentheses. -/
theorem Operand.inside (h : Operand lax t e) : Inside lax t e := by
  obtain ⟨toks, hlex, hreads⟩ := h
  refine ⟨toks, hlex, fun n hn => ?_⟩
  obtain ⟨m, rfl⟩ : ∃ m, n = m + 1 := ⟨n - 1, by omega⟩
  exact (hreads m (by omega)).inside

theorem Prim.operand (h : Prim lax t e) : Operand lax t e := by
  obtain ⟨toks, hlex, hprim⟩ := h
  exact ⟨toks, hlex.lexesTo, fun n hn => reads_of_primary fun rest _ => hprim n hn rest⟩

/-- A text that denotes a term between parentheses is read as that term. -/
theorem Inside.read (h : Inside lax t e) : read lax t = some e := by
  obtain ⟨toks, hlex, hreads⟩ := h
  exact read_of_readsInside hlex (hreads _ (Nat.lt_succ_self _))

/-! ## Leaves -/

/-- A quoted text. -/
theorem operand_str (s : List Char) :
    Operand lax (String.ofList ('\'' :: (escapeQuote '\'' s ++ ['\'']))) (.str (String.ofList s)) := by
  refine ⟨[.str (String.ofList s)], ?_, fun n _ => reads_str n _⟩
  rw [String.toList_ofList]
  exact lexesTo_quoted (by decide) s

/-- A quoted identifier. -/
theorem operand_ident (s : List Char) :
    Operand lax (String.ofList ('"' :: (escapeQuote '"' s ++ ['"']))) (.col (String.ofList s)) := by
  refine ⟨[.ident (String.ofList s)], ?_, fun n _ => reads_ident n _⟩
  rw [String.toList_ofList]
  exact lexesTo_quoted (by decide) s

theorem operand_num (h : IsNumeral t.toList) : Operand lax t (.num t) := by
  refine ⟨[.num t], ?_, fun n _ => reads_num n _⟩
  have hlex : LexesTo lax t.toList [.num (String.ofList t.toList)] := lexesTo_num h
  rwa [String.ofList_toList] at hlex

theorem operand_num_lax {d : Char} {cs : List Char} (hd : isDigit d = true)
    (hcs : cs.all (fun c => isDigit c || c == '.') = true) (ht : t.toList = d :: cs) : Operand true t (.num t) := by
  refine ⟨[.num t], ?_, fun n _ => reads_num n _⟩
  have hlex := lexesTo_num_lax hd hcs
  rwa [← ht, String.ofList_toList] at hlex

/-- `$n` is the parameter `n`. -/
theorem operand_param (n : Nat) : Operand lax ("$" ++ toString n) (.param n) := by
  have hdigits : (toString n).toList = Nat.toDigits 10 n := by
    show (Nat.repr n).toList = _
    rw [Nat.repr_eq_ofList_toDigits, String.toList_ofList]
  have hall : (Nat.toDigits 10 n).all isDigit = true := by
    rw [all_eq_true]
    intro c hc
    rw [isDigit_eq]
    exact Nat.isDigit_of_mem_toDigits (by omega) (by omega) hc
  have hval : Number.digitsVal (Nat.toDigits 10 n) = n := Nat.ofDigitChars_toDigits (by omega) (by omega)
  have hlex : LexesTo lax ("$" ++ toString n).toList [.param (String.ofList (Nat.toDigits 10 n))] := by
    rw [String.toList_append, hdigits]
    cases hds : Nat.toDigits 10 n with
    | nil => exact absurd hds Nat.toDigits_ne_nil
    | cons d ds =>
      rw [hds, all_cons, Bool.and_eq_true] at hall
      exact lexesTo_param hall.1 hall.2
  refine ⟨_, hlex, fun k _ => ?_⟩
  have hreads := reads_param k (String.ofList (Nat.toDigits 10 n))
  rwa [String.toList_ofList, hval] at hreads

theorem operand_null : Operand lax "NULL" .null :=
  ⟨[.word "null"], ⟨_, [], _, rfl, ends_word _, rfl⟩, fun n _ => reads_null n⟩

theorem operand_true : Operand lax "true" (.bool true) :=
  ⟨[.word "true"], ⟨_, [], _, rfl, ends_word _, rfl⟩, fun n _ => reads_true n⟩

theorem operand_false : Operand lax "false" (.bool false) :=
  ⟨[.word "false"], ⟨_, [], _, rfl, ends_word _, rfl⟩, fun n _ => reads_false n⟩

/-! ## Constructs -/

/-- What stands between parentheses is an operand. -/
theorem Inside.paren (h : Inside lax t e) : Operand lax ("(" ++ t ++ ")") e := by
  obtain ⟨toks, hlex, hreads⟩ := h
  refine ⟨.lparen :: (toks ++ [.rparen]), ?_, fun n hn => ?_⟩
  · have hopen : Closed lax "(".toList [.lparen] := rfl
    have hclose : Closed lax ")".toList [.rparen] := rfl
    have h := hopen.append_lexesTo (hlex.append_closed (by exact rfl) hclose).lexesTo
    simpa using h
  · exact (hreads n (by simp at hn; omega)).paren

variable {m : String}

/-- Two operands with a closed text between them. -/
theorem lexesTo_between {la lb mid : List Tok} (hl : LexesTo lax l.toList la)
    (hd : StartsDelim m.toList) (hm : Closed lax m.toList mid) (hr : LexesTo lax r.toList lb) :
    LexesTo lax (l ++ m ++ r).toList (la ++ (mid ++ lb)) := by
  have h := (hl.append_closed hd hm).append_lexesTo hr
  simpa using h

/-- Two operands with an operator between them; the cases below are instances. -/
theorem Operand.binary {tok : Tok} (hd : StartsDelim m.toList) (hm : Closed lax m.toList [tok]) (hl : Operand lax l a)
    (hr : Operand lax r b) (hreads : ∀ {n la lb}, Reads n la a → Reads n lb b →
      ReadsInside (n + 1) (la ++ tok :: lb) e) :
    Inside lax (l ++ m ++ r) e := by
  obtain ⟨la, hla, hra⟩ := hl
  obtain ⟨lb, hlb, hrb⟩ := hr
  refine ⟨_, lexesTo_between hla hd hm hlb, fun n hn => ?_⟩
  obtain ⟨m, rfl⟩ : ∃ m, n = m + 1 := ⟨n - 1, by omega⟩
  simp only [length_append, length_singleton] at hn
  exact hreads (hra m (by omega)) (hrb m (by omega))

theorem Operand.cmp {op : CmpOp} {tok : Tok} (htok : cmpOp? tok = some op)
    (hd : StartsDelim m.toList) (hm : Closed lax m.toList [tok]) (hl : Operand lax l a) (hr : Operand lax r b) :
    Inside lax (l ++ m ++ r) (.cmp op a b) :=
  Operand.binary hd hm hl hr fun ha hb => ha.cmp htok hb

theorem Operand.and (hl : Operand lax l a) (hr : Operand lax r b) : Inside lax (l ++ " AND " ++ r) (.and a b) :=
  Operand.binary rfl rfl hl hr Reads.and

theorem Operand.or (hl : Operand lax l a) (hr : Operand lax r b) : Inside lax (l ++ " OR " ++ r) (.or a b) :=
  Operand.binary rfl rfl hl hr Reads.or

theorem Operand.not (h : Operand lax t e) : Inside lax ("NOT " ++ t) (.not e) := by
  obtain ⟨toks, hlex, hreads⟩ := h
  have hm : Closed lax "NOT ".toList [.word "not"] := rfl
  refine ⟨.word "not" :: toks, by simpa using hm.append_lexesTo hlex, fun n hn => ?_⟩
  obtain ⟨m, rfl⟩ : ∃ m, n = m + 1 := ⟨n - 1, by omega⟩
  simp only [length_cons] at hn
  exact (hreads m (by omega)).not

theorem Operand.isNull (h : Operand lax t e) (neg : Bool) :
    Inside lax (t ++ (if neg then " IS NOT NULL" else " IS NULL")) (.isNull e neg) := by
  obtain ⟨toks, hlex, hreads⟩ := h
  have hsuffix : LexesTo lax (if neg then " IS NOT NULL" else " IS NULL").toList
      (.word "is" :: ((if neg then [.word "not"] else []) ++ [.word "null"])) := by
    cases neg with
    | false => exact ⟨_, [.word "is"], _, rfl, ends_word _, rfl⟩
    | true => exact ⟨_, [.word "is", .word "not"], _, rfl, ends_word _, rfl⟩
  have hd : StartsDelim (if neg then " IS NOT NULL" else " IS NULL").toList := by
    cases neg <;> rfl
  refine ⟨_, by simpa using hlex.append hd hsuffix, fun n hn => ?_⟩
  obtain ⟨m, rfl⟩ : ∃ m, n = m + 1 := ⟨n - 1, by omega⟩
  simp only [length_append] at hn
  exact (hreads m (by omega)).isNull neg

theorem Operand.any {op : CmpOp} {tok : Tok} (htok : cmpOp? tok = some op)
    (hd : StartsDelim m.toList) (hm : Closed lax m.toList [tok, .word "any", .lparen]) (hl : Operand lax l a)
    (hr : Inside lax r b) : Inside lax (l ++ m ++ r ++ ")") (.any op a b) := by
  obtain ⟨la, hla, hra⟩ := hl
  obtain ⟨lb, hlb, hrb⟩ := hr
  have hclose : Closed lax ")".toList [.rparen] := rfl
  refine ⟨la ++ tok :: .word "any" :: .lparen :: (lb ++ [.rparen]), ?_, fun n hn => ?_⟩
  · have h := ((lexesTo_between hla hd hm hlb).append_closed (by exact rfl) hclose).lexesTo
    simpa using h
  obtain ⟨m, rfl⟩ : ∃ m, n = m + 1 := ⟨n - 1, by omega⟩
  simp only [length_append, length_cons] at hn
  exact (hra m (by omega)).any htok (hrb m (by omega))

/-! ## Lists -/

variable {items : List (String × Term)}

/-- Texts joined by commas, up to the closing parenthesis: their tokens, and what each text denotes. -/
theorem commaList_texts (hne : items ≠ []) (hitems : ∀ i ∈ items, Inside lax i.1 i.2) :
    ∃ reads : List (List Tok × Term), reads ≠ [] ∧ reads.map Prod.snd = items.map Prod.snd ∧
      Closed lax (", ".intercalate (items.map Prod.fst) ++ ")").toList (commaList (reads.map Prod.fst)) ∧
      ∀ n, (commaList (reads.map Prod.fst)).length ≤ n → ∀ i ∈ reads, ReadsInside n i.1 i.2 := by
  induction items with
  | nil => exact absurd rfl hne
  | cons i is ih =>
    obtain ⟨toks, hlex, hreads⟩ := hitems i (by simp)
    cases is with
    | nil =>
      refine ⟨[(toks, i.2)], by simp, rfl, ?_, fun n hn j hj => ?_⟩
      · have hclose : Closed lax ")".toList [.rparen] := rfl
        have h := hlex.append_closed (by exact rfl) hclose
        simpa [commaList] using h
      · obtain rfl := mem_singleton.mp hj
        exact hreads n (by simp [commaList] at hn; omega)
    | cons j js =>
      obtain ⟨reads, hrne, hsnd, hclosed, hall⟩ := ih (by simp) fun k hk =>
        hitems k (mem_cons_of_mem i hk)
      obtain ⟨r0, rs, rfl⟩ : ∃ r0 rs, reads = r0 :: rs := exists_cons_of_ne_nil hrne
      refine ⟨(toks, i.2) :: r0 :: rs, by simp, by simpa using hsnd, ?_, fun n hn k hk => ?_⟩
      · have hcomma : Closed lax ", ".toList [.comma] := rfl
        have h := (hlex.append_closed (by exact rfl) hcomma).append hclosed
        simpa [commaList, String.intercalate_cons_cons] using h
      simp only [map_cons, commaList, length_append, length_cons] at hn hall
      rcases mem_cons.mp hk with rfl | hk
      · exact hreads n (by omega)
      · exact hall n (by omega) k hk

/-- `t IN (…)`, with its members separated by commas. -/
theorem Operand.inList (h : Operand lax t e) (hne : items ≠ []) (hitems : ∀ i ∈ items, Inside lax i.1 i.2) :
    Inside lax (t ++ " IN (" ++ (", ".intercalate (items.map Prod.fst) ++ ")"))
      (.inList e (items.map Prod.snd)) := by
  obtain ⟨toks, hlex, hreads⟩ := h
  obtain ⟨reads, hrne, hsnd, hclosed, hall⟩ := commaList_texts hne hitems
  have hm : Closed lax " IN (".toList [.word "in", .lparen] := rfl
  refine ⟨toks ++ .word "in" :: .lparen :: commaList (reads.map Prod.fst), ?_, fun n hn => ?_⟩
  · exact lexesTo_between hlex (by exact rfl) hm hclosed.lexesTo
  obtain ⟨m, rfl⟩ : ∃ m, n = m + 1 := ⟨n - 1, by omega⟩
  simp only [length_append, length_cons] at hn
  rw [← hsnd]
  exact (hreads m (by omega)).inList hrne (hall m (by omega))

variable {w : String}

/-- `f(…)`: `f` is a name in any case, `w` the word it folds to. -/
theorem prim_call {f : String} (hf : LexesTo lax f.toList [.word w]) (hw : isReserved w = false)
    (hc : w ≠ "null" ∧ w ≠ "true" ∧ w ≠ "false") (hne : items ≠ []) (hitems : ∀ i ∈ items, Inside lax i.1 i.2) :
    Prim lax (f ++ "(" ++ (", ".intercalate (items.map Prod.fst) ++ ")")) (.call w (items.map Prod.snd)) := by
  obtain ⟨reads, hrne, hsnd, hclosed, hall⟩ := commaList_texts hne hitems
  have hopen : Closed lax "(".toList [.lparen] := rfl
  refine ⟨.word w :: .lparen :: commaList (reads.map Prod.fst), ?_, fun n hn rest => ?_⟩
  · have h := (hf.append_closed (by exact rfl) hopen).append hclosed
    simpa using h
  simp only [length_cons] at hn
  rw [← hsnd]
  exact primary_call hw hc hrne (hall n (by omega)) rest

/-- `f(l, r)` -/
theorem prim_call_pair {f : String} (hf : LexesTo lax f.toList [.word w]) (hw : isReserved w = false)
    (hc : w ≠ "null" ∧ w ≠ "true" ∧ w ≠ "false") (hl : Inside lax l a) (hr : Inside lax r b) :
    Prim lax (f ++ "(" ++ l ++ ", " ++ r ++ ")") (.call w [a, b]) := by
  have hitems : ∀ i ∈ [(l, a), (r, b)], Inside lax i.1 i.2 := by
    simpa using ⟨hl, hr⟩
  have h := prim_call hf hw hc (by simp) hitems
  simpa [String.intercalate_cons_cons, String.append_assoc] using h

/-- `t::ty`, which binds tighter than every operator. -/
theorem Prim.cast {ty : String} (h : Prim lax t e)
    (hm : LexesTo lax m.toList [.cast, .word ty]) : Operand lax (t ++ m) (.cast e ty) := by
  obtain ⟨toks, hlex, hprim⟩ := h
  refine ⟨toks ++ [.cast, .word ty], ?_, fun n hn => ?_⟩
  · rw [String.toList_append]
    exact hlex.append_lexesTo hm
  · simp only [length_append] at hn
    exact reads_cast (hprim n (by omega))

/-! ## Chains -/

/-- Texts joined by a word: their tokens after the first text, and what each text denotes. -/
theorem wordChain_texts (hd : StartsDelim m.toList) (hm : Closed lax m.toList [.word w]) {toks : List Tok}
    (hlex : LexesTo lax l.toList toks) (hitems : ∀ i ∈ items, Operand lax i.1 i.2) :
    ∃ reads : List (List Tok × Term), reads.map Prod.snd = items.map Prod.snd ∧
      LexesTo lax (m.intercalate (l :: items.map Prod.fst)).toList
        (toks ++ wordChain w (reads.map Prod.fst)) ∧
      ∀ n, (wordChain w (reads.map Prod.fst)).length ≤ n → ∀ i ∈ reads, Reads n i.1 i.2 := by
  induction items generalizing l toks with
  | nil => exact ⟨[], rfl, by simpa [wordChain] using hlex, by simp⟩
  | cons i is ih =>
    obtain ⟨itoks, hilex, hireads⟩ := hitems i (by simp)
    obtain ⟨reads, hsnd, hjoin, hall⟩ := ih hilex fun j hj => hitems j (mem_cons_of_mem i hj)
    refine ⟨(itoks, i.2) :: reads, by simp [hsnd], ?_, fun n hn j hj => ?_⟩
    · have h := lexesTo_between hlex hd hm hjoin
      simpa [String.intercalate_cons_cons, wordChain, String.append_assoc] using h
    have hlen : itoks.length ≤ n ∧ (wordChain w (reads.map Prod.fst)).length ≤ n := by
      simp only [map_cons, wordChain, flatMap_cons, length_append, length_cons] at hn ⊢
      omega
    rcases mem_cons.mp hj with rfl | hj
    · exact hireads n hlen.1
    · exact hall n hlen.2 j hj

/-- Operands joined by ` OR `. -/
theorem Operand.orJoin (h : Operand lax t e) (hitems : ∀ i ∈ items, Operand lax i.1 i.2) :
    Inside lax (" OR ".intercalate (t :: items.map Prod.fst)) ((items.map Prod.snd).foldl .or e) := by
  obtain ⟨toks, hlex, hreads⟩ := h
  have hm : Closed lax " OR ".toList [.word "or"] := rfl
  obtain ⟨reads, hsnd, hjoin, hall⟩ := wordChain_texts (by exact rfl) hm hlex hitems
  refine ⟨_, hjoin, fun n hn => ?_⟩
  obtain ⟨k, rfl⟩ : ∃ k, n = k + 1 := ⟨n - 1, by omega⟩
  rw [length_append] at hn
  rw [← hsnd]
  exact (hreads k (by omega)).orChain (hall k (by omega))

/-- Operands joined by ` AND `. -/
theorem Operand.andJoin (h : Operand lax t e) (hitems : ∀ i ∈ items, Operand lax i.1 i.2) :
    Inside lax (" AND ".intercalate (t :: items.map Prod.fst)) ((items.map Prod.snd).foldl .and e) := by
  obtain ⟨toks, hlex, hreads⟩ := h
  have hm : Closed lax " AND ".toList [.word "and"] := rfl
  obtain ⟨reads, hsnd, hjoin, hall⟩ := wordChain_texts (by exact rfl) hm hlex hitems
  refine ⟨_, hjoin, fun n hn => ?_⟩
  obtain ⟨k, rfl⟩ : ∃ k, n = k + 1 := ⟨n - 1, by omega⟩
  rw [length_append] at hn
  rw [← hsnd]
  exact (hreads k (by omega)).andChain (hall k (by omega))

end GoErp.Lib.Sql
