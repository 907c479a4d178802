import GoErp.Domain.Parser
import GoErp.Lib.SqlLex

/-!
# `Domain.Spelling` — how the lexer reads a text that was put together

`Scans cs kind text rest` says that the first token of `cs`, wherever it stands, has this kind and text and leaves
`rest`; `Spells cs ls` that `cs` is read as the lexemes `ls`. Both can be built up from pieces of a text: one rule for
each kind of token, with what may follow it as its hypothesis. `tokenize_of_spells` hands the tokens to the parser.
-/

namespace GoErp.Domain

open Lib List

/-- A token without its position. -/
abbrev Lexeme := TokenKind × String

def Token.lexeme (t : Token) : Lexeme := (t.kind, t.text)

/-- The first token of a text that does not start with a space. -/
def Scans (cs : List Char) (kind : TokenKind) (text : String) (rest : List Char) : Prop :=
  ∀ pos, ∃ pos', nextAt pos cs = .ok (⟨kind, text, pos⟩, pos', rest)

/-- The character a text starts with, if any, is not one that `p` accepts. -/
def Breaks (p : Char → Bool) (cs : List Char) : Prop := ∀ c, cs.head? = some c → p c = false

theorem breaks_nil (p : Char → Bool) : Breaks p [] := nofun

variable {c : Char} {cs : List Char}

theorem breaks_cons {p : Char → Bool} (h : p c = false) : Breaks p (c :: cs) := by
  intro d hd
  cases hd
  exact h

/-- A run of a class ends where the class ends. -/
theorem takeWhile_append_breaks {p : Char → Bool} {w rest : List Char} (hw : w.all p = true) (hrest : Breaks p rest) :
    (w ++ rest).takeWhile p = w ∧ (w ++ rest).dropWhile p = rest := by
  rw [all_eq_true] at hw
  rw [takeWhile_append_of_pos hw, dropWhile_append_of_pos hw]
  cases rest with
  | nil => simp
  | cons c cs =>
    have hc : ¬ p c = true := by simp [hrest c rfl]
    rw [takeWhile_cons_of_neg hc, dropWhile_cons_of_neg hc, append_nil]
    exact ⟨rfl, rfl⟩

/-! ## One token -/

/-- Digits and letters are read by the last branch. -/
theorem nextAt_word (h : isDigit c = true ∨ isIdentStart c = true) (pos : Nat) (cs : List Char) :
    nextAt pos (c :: cs) = if isDigit c then .ok (lexNumber pos (c :: cs)) else .ok (lexIdent pos (c :: cs)) := by
  rw [nextAt.eq_def]
  dsimp only
  split
  iterate 9 exact absurd h (by decide)
  by_cases hd : isDigit c = true
  · rw [if_pos hd, if_pos hd]
  · rw [if_neg hd, if_neg hd, if_pos (h.resolve_left hd)]

/-- A numeral is one token, before anything that is no part of one. -/
theorem scans_number {w rest : List Char} (hc : isDigit c = true) (hw : w.all isNumberPart = true)
    (hrest : Breaks isNumberPart rest) : Scans (c :: w ++ rest) .number (String.ofList (c :: w)) rest := by
  intro pos
  have hall : (c :: w).all isNumberPart = true := by simp [isNumberPart, hc, hw]
  obtain ⟨htake, hdrop⟩ := takeWhile_append_breaks hall hrest
  refine ⟨pos + (c :: w).length, ?_⟩
  rw [cons_append] at htake hdrop ⊢
  rw [nextAt_word (.inl hc), if_pos hc, lexNumber, htake, hdrop]

/-- The kind of an identifier's text: a key word's, or that of an identifier. -/
def wordKind (w : List Char) : TokenKind := (keywords (String.ofList (w.map Char.toLower))).getD .ident

theorem wordKind_ne_eof (w : List Char) : wordKind w ≠ .eof := by
  unfold wordKind
  cases hk : keywords (String.ofList (w.map Char.toLower)) with
  | none => simp
  | some k => exact (keywords_kind hk).2.2

theorem wordKind_ne_number (w : List Char) : wordKind w ≠ .number := by
  unfold wordKind
  cases hk : keywords (String.ofList (w.map Char.toLower)) with
  | none => simp
  | some k => exact (keywords_kind hk).2.1

/-- A word is one token, a key word's or an identifier's. -/
theorem scans_word {w rest : List Char} (hc : isIdentStart c = true) (hw : w.all isIdentPart = true)
    (hrest : Breaks isIdentPart rest) : Scans (c :: w ++ rest) (wordKind (c :: w)) (String.ofList (c :: w)) rest := by
  intro pos
  have hall : (c :: w).all isIdentPart = true := by simp [isIdentPart, hc, hw]
  have hd : ¬ isDigit c = true := by
    intro hd
    simp only [isDigit, isIdentStart, decide_eq_true_eq, Char.le_def] at hd hc
    rcases hc with rfl | hc | hc
    · exact absurd hd.2 (by decide)
    all_goals exact absurd (UInt32.le_trans hc.1 hd.2) (by decide)
  obtain ⟨htake, hdrop⟩ := takeWhile_append_breaks hall hrest
  refine ⟨pos + (c :: w).length, ?_⟩
  rw [cons_append] at htake hdrop ⊢
  rw [nextAt_word (.inr hc), if_neg hd, lexIdent, htake, hdrop]
  rfl

/-- A quoted text is read back as the text, whatever its characters. -/
theorem lexString_escapeQuote (start : Nat) {rest : List Char} (hrest : Breaks (· == '\'') rest) (s acc : List Char)
    (pos : Nat) : ∃ pos', lexString start acc pos (Sql.escapeQuote '\'' s ++ '\'' :: rest) =
      .ok (⟨.string, String.ofList (acc.reverse ++ s), start⟩, pos', rest) := by
  induction s generalizing acc pos with
  | nil =>
    refine ⟨pos + 1, ?_⟩
    rw [append_nil]
    cases rest with
    | nil => rfl
    | cons c cs =>
      have hc : c ≠ '\'' := by simpa using hrest c rfl
      simp [Sql.escapeQuote, lexString, hc]
  | cons c s ih =>
    by_cases hc : c = '\''
    · subst hc
      obtain ⟨pos', hpos'⟩ := ih ('\'' :: acc) (pos + 2)
      refine ⟨pos', ?_⟩
      simpa [Sql.escapeQuote, lexString] using hpos'
    obtain ⟨pos', hpos'⟩ := ih (c :: acc) (pos + 1)
    refine ⟨pos', ?_⟩
    have hstep : Sql.escapeQuote '\'' (c :: s) = c :: Sql.escapeQuote '\'' s := by simp [Sql.escapeQuote, hc]
    rw [hstep, cons_append, lexString]
    · simpa using hpos'
    · exact fun _ h => absurd h hc
    · exact fun h => absurd h hc

/-- `'…'` with the quotes inside doubled. -/
def quoted (s : String) : List Char := '\'' :: (Sql.escapeQuote '\'' s.toList ++ ['\''])

/-- A quoted text is one token, before anything but a quote. -/
theorem scans_quoted (s : String) {rest : List Char} (hrest : Breaks (· == '\'') rest) :
    Scans (quoted s ++ rest) .string s rest := by
  intro pos
  obtain ⟨pos', hpos'⟩ := lexString_escapeQuote pos hrest s.toList [] (pos + 1)
  refine ⟨pos', ?_⟩
  rw [quoted, cons_append, append_assoc, singleton_append]
  simpa [nextAt] using hpos'

theorem isSpace_toNat (h : isSpace c = true) : c.toNat ≤ 32 ∨ c.toNat = 0x85 ∨ c.toNat = 0xA0 := by
  simp only [isSpace, decide_eq_true_eq] at h
  rcases h with rfl | h | h | h
  · exact .inl (by decide)
  all_goals omega

theorem isIdentPart_toNat (h : isIdentPart c = true) : 48 ≤ c.toNat ∧ c.toNat ≤ 122 := by
  have hle : ∀ a b : Char, a ≤ b ↔ a.toNat ≤ b.toNat := fun _ _ => Iff.rfl
  simp only [isIdentPart, isIdentStart, isDigit, Bool.or_eq_true, decide_eq_true_eq, hle] at h
  have h0 : '0'.toNat = 48 := rfl
  have h9 : '9'.toNat = 57 := rfl
  have ha : 'a'.toNat = 97 := rfl
  have hz : 'z'.toNat = 122 := rfl
  have hA : 'A'.toNat = 65 := rfl
  have hZ : 'Z'.toNat = 90 := rfl
  rcases h with (rfl | h) | h
  · decide
  all_goals omega

/-- A space ends an identifier. -/
theorem isIdentPart_of_isSpace (h : isSpace c = true) : isIdentPart c = false := by
  cases hp : isIdentPart c with
  | false => rfl
  | true =>
    have := isIdentPart_toNat hp
    have := isSpace_toNat h
    omega

theorem nextAt_space (h : isSpace c = true) (pos : Nat) (cs : List Char) :
    nextAt pos (c :: cs) = .error (.unexpectedChar c pos) := by
  obtain ⟨hi, hd⟩ : isIdentStart c = false ∧ isDigit c = false := by
    simpa [isIdentPart] using isIdentPart_of_isSpace h
  rw [nextAt.eq_def]
  dsimp only
  split
  iterate 9 exact absurd h (by decide)
  rw [hi, hd]
  rfl

/-! ## The shapes of a token -/

/-- The tokens of fixed text that no further character changes. -/
def symbols : List (String × TokenKind) :=
  [(".", .dot), ("(", .lparen), (")", .rparen), (",", .comma), ("=", .eq), ("!=", .neq), ("<=", .lte), (">=", .gte)]

/-- What a token other than the end of input looks like, and what may follow it. -/
inductive Shape : List Char → TokenKind → String → List Char → Prop where
  | symbol {w kind rest} : (w, kind) ∈ symbols → Shape (w.toList ++ rest) kind w rest
  | lt {rest} : Breaks (· == '=') rest → Shape ('<' :: rest) .lt "<" rest
  | gt {rest} : Breaks (· == '=') rest → Shape ('>' :: rest) .gt ">" rest
  | number {c w rest} : isDigit c = true → w.all isNumberPart = true → Breaks isNumberPart rest →
      Shape (c :: w ++ rest) .number (String.ofList (c :: w)) rest
  | word {c w rest} : isIdentStart c = true → w.all isIdentPart = true → Breaks isIdentPart rest →
      Shape (c :: w ++ rest) (wordKind (c :: w)) (String.ofList (c :: w)) rest
  | string {s rest} : Breaks (· == '\'') rest → Shape (quoted s ++ rest) .string s rest

/-- A text of a token's shape is scanned as the token, wherever it stands. -/
theorem Shape.scans {rest : List Char} {kind : TokenKind} {text : String} (h : Shape cs kind text rest) :
    Scans cs kind text rest := by
  cases h with
  | @symbol w kind rest hmem =>
    intro pos
    simp only [symbols, mem_cons, not_mem_nil, or_false, Prod.mk.injEq] at hmem
    rcases hmem with h | h | h | h | h | h | h | h <;> obtain ⟨rfl, rfl⟩ := h <;> exact ⟨_, rfl⟩
  | lt hb =>
    intro pos
    cases rest with
    | nil => exact ⟨_, rfl⟩
    | cons c cs =>
      have hc : c ≠ '=' := by simpa using hb c rfl
      exact ⟨pos + "<".length, by simp [nextAt, Domain.symbol, hc]⟩
  | gt hb =>
    intro pos
    cases rest with
    | nil => exact ⟨_, rfl⟩
    | cons c cs =>
      have hc : c ≠ '=' := by simpa using hb c rfl
      exact ⟨pos + ">".length, by simp [nextAt, Domain.symbol, hc]⟩
  | number hc hw hb => exact scans_number hc hw hb
  | word hc hw hb => exact scans_word hc hw hb
  | string hb => exact scans_quoted _ hb

theorem breaks_char {q : Char} (h : ∀ ds, cs ≠ q :: ds) : Breaks (· == q) cs := by
  intro c hc
  cases cs with
  | nil => cases hc
  | cons d ds =>
    cases hc
    simpa using fun he : c = q => h ds (by rw [he])

theorem breaks_dropWhile (p : Char → Bool) (cs : List Char) : Breaks p (cs.dropWhile p) := by
  intro c hc
  have hne : cs.dropWhile p ≠ [] := by
    intro he
    rw [he] at hc
    cases hc
  have hhead := head_dropWhile_not p hne
  rw [head?_eq_some_head hne] at hc
  cases hc
  exact hhead

variable {pos' pos : Nat} {tok : Token}

/-- A string literal that the lexer ends is a quoted text. -/
theorem lexString_shape {start : Nat} {acc rest : List Char} (h : lexString start acc pos cs = .ok (tok, pos', rest)) :
    ∃ s, cs = Sql.escapeQuote '\'' s ++ '\'' :: rest ∧ Breaks (· == '\'') rest ∧
      tok = ⟨.string, String.ofList (acc.reverse ++ s), start⟩ := by
  fun_induction lexString start acc pos cs with
  | case1 => cases h
  | case2 acc pos cs ih =>
    obtain ⟨s, rfl, hb, rfl⟩ := ih h
    exact ⟨'\'' :: s, by simp [Sql.escapeQuote], hb, by simp⟩
  | case3 acc pos cs hne =>
    cases h
    exact ⟨[], by simp [Sql.escapeQuote], breaks_char hne, by simp⟩
  | case4 acc pos c cs h1 h2 ih =>
    obtain ⟨s, rfl, hb, rfl⟩ := ih h
    have hc : c ≠ '\'' := fun he => h2 he
    exact ⟨c :: s, by simp [Sql.escapeQuote, hc], hb, by simp⟩

/-- Only the empty text yields the end of input. -/
theorem nextAt_cons_ne_eof {rest : List Char} (h : nextAt pos (c :: cs) = .ok (tok, pos', rest)) : tok.kind ≠ .eof := by
  intro hk
  rw [nextAt.eq_def] at h
  dsimp only at h
  split at h
  · obtain ⟨s, -, -, rfl⟩ := lexString_shape h
    cases hk
  iterate 5 cases h; cases hk
  iterate 3 split at h <;> cases h <;> cases hk
  split at h
  · cases h
    cases hk
  split at h
  · cases h
    exact wordKind_ne_eof _ hk
  · cases h

/-- What is scanned as a token has its shape. -/
theorem shape_of_nextAt {rest : List Char} (h : nextAt pos cs = .ok (tok, pos', rest)) (hk : tok.kind ≠ .eof) :
    Shape cs tok.kind tok.text rest := by
  have sym : ∀ {kind : TokenKind} {text : String} {ds : List Char}, (text, kind) ∈ symbols →
      symbol kind text pos ds = .ok (tok, pos', rest) → Shape (text.toList ++ ds) tok.kind tok.text rest := by
    intro kind text ds hmem hsym
    cases hsym
    exact .symbol hmem
  rw [nextAt.eq_def] at h
  split at h
  · cases h
    exact absurd rfl hk
  rename_i c cs
  split at h
  · obtain ⟨s, rfl, hb, rfl⟩ := lexString_shape h
    have hshape : Shape _ .string (String.ofList s) rest := .string hb
    simpa [quoted] using hshape
  iterate 5 exact sym (by decide) h
  · split at h
    · exact sym (by decide) h
    · cases h
  · split at h
    · exact sym (by decide) h
    rename_i hne
    cases h
    exact .lt (breaks_char hne)
  · split at h
    · exact sym (by decide) h
    rename_i hne
    cases h
    exact .gt (breaks_char hne)
  split at h
  · rename_i hd
    have hp : isNumberPart c = true := by simp [isNumberPart, hd]
    cases h
    have hshape : Shape _ .number _ _ :=
      .number hd (all_takeWhile (p := isNumberPart) (l := cs)) (breaks_dropWhile isNumberPart cs)
    simpa [hp] using hshape
  · split at h
    · rename_i hi
      have hp : isIdentPart c = true := by simp [isIdentPart, hi]
      cases h
      have hshape : Shape _ (wordKind (c :: cs.takeWhile isIdentPart)) _ _ :=
        .word hi (all_takeWhile (p := isIdentPart) (l := cs)) (breaks_dropWhile isIdentPart cs)
      simpa [hp, wordKind] using hshape
    · cases h

/-! ## A whole text -/

/-- The text is read as these lexemes. -/
inductive Spells : List Char → List Lexeme → Prop where
  | nil : Spells [] []
  | space {c cs ls} : isSpace c = true → Spells cs ls → Spells (c :: cs) ls
  | token {cs kind text rest ls} : Scans cs kind text rest → kind ≠ .eof → Spells rest ls →
      Spells cs ((kind, text) :: ls)

theorem next_space (h : isSpace c = true) (pos : Nat) (cs : List Char) : next pos (c :: cs) = next (pos + 1) cs := by
  unfold next
  rw [takeWhile_cons_of_pos h, dropWhile_cons_of_pos h, length_cons, Nat.add_assoc, Nat.add_comm 1]

/-- A text that is scanned as a token has it as its next one, at once: a token begins with no space. -/
theorem Scans.next {rest : List Char} {kind : TokenKind} {text : String} (h : Scans cs kind text rest) (pos : Nat) :
    ∃ pos', Domain.next pos cs = .ok (⟨kind, text, pos⟩, pos', rest) := by
  obtain ⟨pos', hpos'⟩ := h pos
  have hns : cs.takeWhile isSpace = [] ∧ cs.dropWhile isSpace = cs := by
    cases cs with
    | nil => exact ⟨rfl, rfl⟩
    | cons c cs =>
      have hc : ¬ isSpace c = true := by
        intro hs
        rw [nextAt_space hs] at hpos'
        cases hpos'
      exact ⟨takeWhile_cons_of_neg hc, dropWhile_cons_of_neg hc⟩
  refine ⟨pos', ?_⟩
  rw [Domain.next, hns.1, hns.2]
  exact hpos'

/-- A text that spells tokens is read as these, wherever they stand. -/
theorem tokenizeFrom_of_spells {ls : List Lexeme} (h : Spells cs ls) {fuel : Nat} (hfuel : cs.length < fuel)
    (pos : Nat) : ∃ toks, tokenizeFrom fuel pos cs = .ok toks ∧ toks.map Token.lexeme = ls ++ [(.eof, "")] := by
  induction h generalizing fuel pos with
  | nil =>
    obtain ⟨n, rfl⟩ : ∃ n, fuel = n + 1 := ⟨fuel - 1, by omega⟩
    exact ⟨[⟨.eof, "", pos⟩], rfl, rfl⟩
  | @space c cs ls hc _ ih =>
    obtain ⟨n, rfl⟩ : ∃ n, fuel = n + 1 := ⟨fuel - 1, by omega⟩
    obtain ⟨toks, htoks, hls⟩ := ih (Nat.lt_of_succ_lt hfuel) (pos + 1)
    refine ⟨toks, ?_, hls⟩
    rw [tokenizeFrom] at htoks ⊢
    rw [next_space hc]
    exact htoks
  | @token cs kind text rest ls hscan hk _ ih =>
    obtain ⟨n, rfl⟩ : ∃ n, fuel = n + 1 := ⟨fuel - 1, by omega⟩
    obtain ⟨pos', hnext⟩ := hscan.next pos
    have hlt : rest.length < cs.length := (next_ok hnext).consumes hk
    obtain ⟨toks, htoks, hls⟩ := ih (show rest.length < n by omega) pos'
    refine ⟨⟨kind, text, pos⟩ :: toks, ?_, by simp [Token.lexeme, hls]⟩
    rw [tokenizeFrom, hnext]
    simp only [if_neg hk, htoks]

theorem tokenize_of_spells {src : String} {ls : List Lexeme} (h : Spells src.toList ls) :
    ∃ toks, tokenize src = .ok toks ∧ toks.map Token.lexeme = ls ++ [(.eof, "")] :=
  tokenizeFrom_of_spells h (Nat.lt_succ_of_le (Nat.le_of_eq String.length_toList)) 0

end GoErp.Domain
