import Mathlib.Data.List.Basic

/-!
# `Domain.Lexer` — tokens of the domain expression language

`domain/lexer.go`. A Go string is a sequence of bytes: here it is a `String` whose characters stand for the bytes. The
fuel of `tokenize` is never used up (`tokenize_ne_outOfFuel`). `Token.Shaped` says what the text of an identifier or
number token looks like, which is what the compilers rely on when they print it.
-/

namespace GoErp.Domain

open List

/-- The kinds of `lexer.go`. -/
inductive TokenKind where
  | eof | ident | string | number | dot | lparen | rparen | comma
  | eq | neq | lt | gt | lte | gte
  | and | or | not | in_ | is | null | true_ | false_ | like | ilike | childOf | parentOf
  deriving DecidableEq, Repr

/-- `keywords`, looked up on the lower-cased identifier text. -/
def keywords : String → Option TokenKind
  | "and" => some .and
  | "or" => some .or
  | "not" => some .not
  | "in" => some .in_
  | "is" => some .is
  | "null" => some .null
  | "true" => some .true_
  | "false" => some .false_
  | "like" => some .like
  | "ilike" => some .ilike
  | "child_of" => some .childOf
  | "parent_of" => some .parentOf
  | _ => none

structure Token where
  kind : TokenKind
  text : String
  pos : Nat
  deriving DecidableEq, Repr

/-- The lexer's errors, with the data their messages print. -/
inductive LexError where
  /-- `domain: unexpected character %q at position %d` -/
  | unexpectedChar (c : Char) (pos : Nat)
  /-- `domain: unterminated string literal starting at position %d` -/
  | unterminated (start : Nat)
  | outOfFuel
  deriving DecidableEq, Repr

def isDigit (c : Char) : Bool := '0' ≤ c ∧ c ≤ '9'

def isIdentStart (c : Char) : Bool := c = '_' ∨ ('a' ≤ c ∧ c ≤ 'z') ∨ ('A' ≤ c ∧ c ≤ 'Z')

def isIdentPart (c : Char) : Bool := isIdentStart c || isDigit c

/-- `unicode.IsSpace(rune(b))` for a byte `b`. -/
def isSpace (c : Char) : Bool :=
  c = ' ' ∨ (9 ≤ c.toNat ∧ c.toNat ≤ 13) ∨ c.toNat = 0x85 ∨ c.toNat = 0xA0

/-- Characters of a numeric literal: digits and dots, however many. -/
def isNumberPart (c : Char) : Bool := isDigit c || c == '.'

/-- What a lexing step leaves: the token, the position after it and the unread characters. -/
abbrev Lexed := Token × Nat × List Char

/-- The body of a string literal, after its opening quote at `start`; `acc` holds the decoded text
    reversed. A doubled quote is one quote. -/
def lexString (start : Nat) (acc : List Char) (pos : Nat) : List Char → Except LexError Lexed
  | [] => .error (.unterminated start)
  | '\'' :: '\'' :: cs => lexString start ('\'' :: acc) (pos + 2) cs
  | '\'' :: cs => .ok (⟨.string, String.ofList acc.reverse, start⟩, pos + 1, cs)
  | c :: cs => lexString start (c :: acc) (pos + 1) cs

/-- `lexNumber`: any run of digits and points. -/
def lexNumber (start : Nat) (src : List Char) : Lexed :=
  let text := src.takeWhile isNumberPart
  (⟨.number, String.ofList text, start⟩, start + text.length, src.dropWhile isNumberPart)

/-- `lexIdent`: a key word in any case, or an identifier. -/
def lexIdent (start : Nat) (src : List Char) : Lexed :=
  let text := src.takeWhile isIdentPart
  let kind := (keywords (String.ofList (text.map Char.toLower))).getD .ident
  (⟨kind, String.ofList text, start⟩, start + text.length, src.dropWhile isIdentPart)

/-- A token of fixed text at `pos`. -/
def symbol (kind : TokenKind) (text : String) (pos : Nat) (rest : List Char) : Except LexError Lexed :=
  .ok (⟨kind, text, pos⟩, pos + text.length, rest)

/-- `next` after the leading spaces have been skipped. -/
def nextAt (pos : Nat) : List Char → Except LexError Lexed
  | [] => .ok (⟨.eof, "", pos⟩, pos, [])
  | c :: cs =>
    match c with
    | '\'' => lexString pos [] (pos + 1) cs
    | '.' => symbol .dot "." pos cs
    | '(' => symbol .lparen "(" pos cs
    | ')' => symbol .rparen ")" pos cs
    | ',' => symbol .comma "," pos cs
    | '=' => symbol .eq "=" pos cs
    | '!' => match cs with
      | '=' :: cs' => symbol .neq "!=" pos cs'
      | _ => .error (.unexpectedChar c pos)
    | '<' => match cs with
      | '=' :: cs' => symbol .lte "<=" pos cs'
      | _ => symbol .lt "<" pos cs
    | '>' => match cs with
      | '=' :: cs' => symbol .gte ">=" pos cs'
      | _ => symbol .gt ">" pos cs
    | _ =>
      if isDigit c then .ok (lexNumber pos (c :: cs))
      else if isIdentStart c then .ok (lexIdent pos (c :: cs))
      else .error (.unexpectedChar c pos)

def next (pos : Nat) (src : List Char) : Except LexError Lexed :=
  nextAt (pos + (src.takeWhile isSpace).length) (src.dropWhile isSpace)

/-- The loop of `tokenize`; the fuel is one more than the characters. -/
def tokenizeFrom : Nat → Nat → List Char → Except LexError (List Token)
  | 0, _, _ => .error .outOfFuel
  | fuel + 1, pos, src =>
    match next pos src with
    | .error e => .error e
    | .ok (tok, pos', rest) =>
      if tok.kind = .eof then .ok [tok]
      else match tokenizeFrom fuel pos' rest with
        | .error e => .error e
        | .ok toks => .ok (tok :: toks)

/-- `tokenize` -/
def tokenize (src : String) : Except LexError (List Token) :=
  tokenizeFrom (src.length + 1) 0 src.toList

/-! ## What a token looks like -/

/-- The text of a numeric literal: a digit, then digits and dots. -/
def IsNumeral (s : String) : Prop :=
  ∃ c cs, s.toList = c :: cs ∧ isDigit c = true ∧ cs.all isNumberPart = true

/-- The text of an identifier. -/
def IsIdent (s : String) : Prop := s.toList.all isIdentPart = true

/-- Identifier and number tokens carry the text of their class. -/
def Token.Shaped (t : Token) : Prop :=
  (t.kind = .ident → IsIdent t.text) ∧ (t.kind = .number → IsNumeral t.text)

/-- A lexing step that produced `tok` from `src` and left `rest`. -/
structure StepOk (src : List Char) (tok : Token) (rest : List Char) : Prop where
  shaped : tok.Shaped
  consumes : tok.kind ≠ .eof → rest.length < src.length

theorem Token.shaped_of_kind {t : Token} (hi : t.kind ≠ .ident) (hn : t.kind ≠ .number) : t.Shaped :=
  ⟨fun h => absurd h hi, fun h => absurd h hn⟩

/-- Key words are neither identifiers nor numbers. -/
theorem keywords_kind {s : String} {k : TokenKind} (h : keywords s = some k) : k ≠ .ident ∧ k ≠ .number ∧ k ≠ .eof := by
  unfold keywords at h
  split at h <;> simp at h <;> subst h <;> decide

theorem dropWhile_length_le (p : Char → Bool) (l : List Char) : (l.dropWhile p).length ≤ l.length :=
  (dropWhile_suffix p).length_le

variable {c : Char}

theorem dropWhile_length_lt {p : Char → Bool} (cs : List Char) (hc : p c = true) :
    ((c :: cs).dropWhile p).length < (c :: cs).length := by
  rw [dropWhile_cons_of_pos hc, length_cons]
  exact Nat.lt_succ_of_le (dropWhile_length_le p cs)

variable {rest src : List Char} {tok : Token} {pos pos' : Nat}

theorem lexString_ok {start : Nat} {acc : List Char} (h : lexString start acc pos src = .ok (tok, pos', rest)) :
    StepOk src tok rest := by
  fun_induction lexString start acc pos src with
  | case1 => simp at h
  | case2 acc pos cs ih =>
    obtain ⟨hs, hc⟩ := ih h
    exact ⟨hs, fun hk => Nat.lt_succ_of_lt (Nat.lt_succ_of_lt (hc hk))⟩
  | case3 acc pos cs hne =>
    obtain ⟨rfl, -, rfl⟩ := h
    exact ⟨Token.shaped_of_kind (by simp) (by simp), fun _ => Nat.lt_succ_self _⟩
  | case4 acc pos c cs h1 h2 ih =>
    obtain ⟨hs, hc⟩ := ih h
    exact ⟨hs, fun hk => Nat.lt_succ_of_lt (hc hk)⟩

variable {cs : List Char}

theorem lexNumber_ok (hc : isDigit c = true) :
    StepOk (c :: cs) (lexNumber pos (c :: cs)).1 (lexNumber pos (c :: cs)).2.2 := by
  have hp : isNumberPart c = true := by simp [isNumberPart, hc]
  refine ⟨⟨by simp [lexNumber], fun _ => ⟨c, cs.takeWhile isNumberPart, ?_, hc, ?_⟩⟩, ?_⟩
  · simp [lexNumber, hp]
  · exact all_takeWhile
  · intro _
    exact dropWhile_length_lt cs hp

theorem lexIdent_ok (hc : isIdentStart c = true) :
    StepOk (c :: cs) (lexIdent pos (c :: cs)).1 (lexIdent pos (c :: cs)).2.2 := by
  have hp : isIdentPart c = true := by simp [isIdentPart, hc]
  refine ⟨⟨fun _ => ?_, fun hk => ?_⟩, fun _ => dropWhile_length_lt cs hp⟩
  · simp [lexIdent, IsIdent]
  -- a key word is never a number
  simp only [lexIdent] at hk
  cases hkw : keywords (String.ofList (((c :: cs).takeWhile isIdentPart).map Char.toLower)) with
  | none => simp [hkw] at hk
  | some k => exact absurd (by simpa [hkw] using hk) (keywords_kind hkw).2.1

theorem symbol_ok {kind : TokenKind} {text : String} (hi : kind ≠ .ident) (hn : kind ≠ .number)
    (hlt : cs.length < src.length) (h : symbol kind text pos cs = .ok (tok, pos', rest)) : StepOk src tok rest := by
  obtain ⟨rfl, -, rfl⟩ := h
  exact ⟨Token.shaped_of_kind hi hn, fun _ => hlt⟩

/-- A token is shaped and takes at least one character. -/
theorem nextAt_ok (h : nextAt pos src = .ok (tok, pos', rest)) : StepOk src tok rest := by
  unfold nextAt at h
  split at h
  · -- end of input
    obtain ⟨rfl, -, rfl⟩ := h
    exact ⟨Token.shaped_of_kind (by simp) (by simp), fun hk => absurd rfl hk⟩
  rename_i c cs
  split at h
  · obtain ⟨hs, hc⟩ := lexString_ok h
    exact ⟨hs, fun hk => Nat.lt_succ_of_lt (hc hk)⟩
  iterate 5 exact symbol_ok (by simp) (by simp) (by simp) h
  · -- `!` must be followed by `=`
    split at h
    · exact symbol_ok (by simp) (by simp) (by simp only [length_cons]; omega) h
    · simp at h
  iterate 2
    split at h
    · exact symbol_ok (by simp) (by simp) (by simp only [length_cons]; omega) h
    · exact symbol_ok (by simp) (by simp) (by simp) h
  by_cases hd : isDigit c = true
  · rw [if_pos hd] at h
    cases h
    exact lexNumber_ok hd
  rw [if_neg hd] at h
  by_cases hi : isIdentStart c = true
  · rw [if_pos hi] at h
    cases h
    exact lexIdent_ok hi
  · simp [hi] at h

theorem next_ok (h : next pos src = .ok (tok, pos', rest)) : StepOk src tok rest := by
  obtain ⟨hs, hc⟩ := nextAt_ok h
  exact ⟨hs, fun hk => Nat.lt_of_lt_of_le (hc hk) (dropWhile_length_le isSpace src)⟩


/-! ## The token list -/

/-- The list ends in its end-of-input token. -/
def EofTerminated : List Token → Prop
  | [] => False
  | [t] => t.kind = .eof
  | _ :: ts => EofTerminated ts

theorem EofTerminated.cons {t : Token} {ts : List Token} (h : EofTerminated ts) : EofTerminated (t :: ts) := by
  cases ts with
  | nil => exact absurd h (by simp [EofTerminated])
  | cons u us => exact h

/-- The tokens are shaped, and the last is the end of input. -/
theorem tokenizeFrom_ok {fuel : Nat} {toks : List Token} (h : tokenizeFrom fuel pos src = .ok toks) :
    (∀ t ∈ toks, t.Shaped) ∧ EofTerminated toks := by
  induction fuel generalizing pos src toks with
  | zero => simp [tokenizeFrom] at h
  | succ fuel ih =>
    rw [tokenizeFrom] at h
    split at h
    · simp at h
    rename_i tok pos' rest hn
    have hstep := next_ok hn
    split at h
    · rename_i heof
      cases h
      exact ⟨by simpa using hstep.shaped, heof⟩
    split at h
    · simp at h
    rename_i toks' hrest
    cases h
    obtain ⟨hsh, heof⟩ := ih hrest
    refine ⟨?_, heof.cons⟩
    intro t ht
    rcases mem_cons.mp ht with ht | ht
    · exact ht ▸ hstep.shaped
    · exact hsh t ht

theorem tokenize_ok {src : String} {toks : List Token} (h : tokenize src = .ok toks) :
    (∀ t ∈ toks, t.Shaped) ∧ EofTerminated toks :=
  tokenizeFrom_ok h

theorem lexString_ne_outOfFuel (start : Nat) (acc : List Char) (pos : Nat) (src : List Char) :
    lexString start acc pos src ≠ .error .outOfFuel := by
  fun_induction lexString start acc pos src with
  | case1 => simp
  | case2 _ _ _ ih => exact ih
  | case3 => simp
  | case4 _ _ _ _ _ _ ih => exact ih

theorem nextAt_ne_outOfFuel (pos : Nat) (src : List Char) : nextAt pos src ≠ .error .outOfFuel := by
  unfold nextAt
  split
  · simp
  split
  · exact lexString_ne_outOfFuel _ _ _ _
  all_goals (try split) <;> (try split) <;> simp [symbol]

/-- The fuel is never used up: each token but the last consumes a character. -/
theorem tokenizeFrom_ne_outOfFuel {fuel : Nat} (hf : src.length < fuel) :
    tokenizeFrom fuel pos src ≠ .error .outOfFuel := by
  induction fuel generalizing pos src with
  | zero => exact absurd hf (Nat.not_lt_zero _)
  | succ fuel ih =>
    rw [tokenizeFrom]
    split
    · rename_i e hn
      intro he
      cases he
      exact nextAt_ne_outOfFuel _ _ hn
    rename_i tok pos' rest hn
    split
    · simp
    rename_i hk
    have hlt := (next_ok hn).consumes hk
    have hrest : tokenizeFrom fuel pos' rest ≠ .error .outOfFuel := ih (by omega)
    split
    · rename_i e he
      intro h
      cases h
      exact hrest he
    · simp

/-- **`tokenize` is total.** -/
theorem tokenize_ne_outOfFuel (src : String) : tokenize src ≠ .error .outOfFuel :=
  tokenizeFrom_ne_outOfFuel (Nat.lt_succ_of_le (Nat.le_of_eq String.length_toList))

end GoErp.Domain
