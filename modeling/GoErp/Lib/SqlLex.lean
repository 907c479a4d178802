import Mathlib.Data.List.Basic

/-!
# `Lib.SqlLex` — SQL tokens

A tokeniser for the expression part of SQL, as a machine that reads one character at a time. Quoted text ends at the
first quote that is not doubled; a numeral has at most one point, so `1.2.3` is the two tokens `1.2` and `.3`;
unquoted words are folded to lower case. With `lax` set, a numeral runs over all its digits and points, which is not
SQL.

`LexesTo t toks` says that the text `t` is read as `toks` at the end of the input and before any delimiter, `Closed t
toks` the same before anything. The append lemmas compose the two.
-/

namespace GoErp.Lib.Sql

open List

/-- The tokens. -/
inductive Tok where
  /-- an unquoted word, folded to lower case -/
  | word (s : String)
  /-- a quoted identifier -/
  | ident (s : String)
  | str (s : String)
  | num (s : String)
  /-- the digits of a positional parameter -/
  | param (digits : String)
  | lparen | rparen | comma | dot | cast
  | eq | ne | lt | gt | le | ge
  deriving DecidableEq, Repr

/-- What has been read of the token in progress, the latest character first. -/
inductive LexState where
  | start
  | word (acc : List Char)
  | int (acc : List Char)
  | frac (acc : List Char)
  | dollar
  | param (acc : List Char)
  /-- inside text quoted by `q` -/
  | quoted (q : Char) (acc : List Char)
  /-- after a quote inside such text: its end, or the first of a doubled pair -/
  | quoteEnd (q : Char) (acc : List Char)
  | dot | lt | gt | bang | colon
  | bad
  deriving DecidableEq, Repr

def isSpace (c : Char) : Bool := c = ' ' ∨ (9 ≤ c.toNat ∧ c.toNat ≤ 13)

def isDigit (c : Char) : Bool := '0' ≤ c ∧ c ≤ '9'

/-- A character that may begin an unquoted word; bytes above ASCII count as letters. -/
def isWordStart (c : Char) : Bool :=
  c = '_' ∨ ('a' ≤ c ∧ c ≤ 'z') ∨ ('A' ≤ c ∧ c ≤ 'Z') ∨ 128 ≤ c.toNat

def isWordPart (c : Char) : Bool := isWordStart c || isDigit c || c == '$'

def isQuote (c : Char) : Bool := c = '\'' ∨ c = '"'

/-- Text in single quotes is a string, text in double quotes an identifier. -/
def quotedTok (q : Char) (s : String) : Tok := if q = '\'' then .str s else .ident s

/-- The tokens a state still owes when the input ends; `none` inside quotes or half an operator. -/
def LexState.flush : LexState → Option (List Tok)
  | .start => some []
  | .word acc => some [.word (String.ofList (acc.reverse.map Char.toLower))]
  | .int acc => some [.num (String.ofList acc.reverse)]
  | .frac acc => some [.num (String.ofList acc.reverse)]
  | .param acc => some [.param (String.ofList acc.reverse)]
  | .quoteEnd q acc => some [quotedTok q (String.ofList acc.reverse)]
  | .dot => some [.dot]
  | .lt => some [.lt]
  | .gt => some [.gt]
  | .dollar => none
  | .quoted _ _ => none
  | .bang => none
  | .colon => none
  | .bad => none

/-- The first character of a token. -/
def begin_ (c : Char) : LexState × List Tok :=
  if isSpace c then (.start, [])
  else if isWordStart c then (.word [c], [])
  else if isDigit c then (.int [c], [])
  else if isQuote c then (.quoted c [], [])
  else match c with
    | '(' => (.start, [.lparen])
    | ')' => (.start, [.rparen])
    | ',' => (.start, [.comma])
    | '=' => (.start, [.eq])
    | '$' => (.dollar, [])
    | '.' => (.dot, [])
    | '<' => (.lt, [])
    | '>' => (.gt, [])
    | '!' => (.bang, [])
    | ':' => (.colon, [])
    | _ => (.bad, [])

/-- The token in progress is complete and `c` begins the next one. -/
def LexState.close (st : LexState) (c : Char) : LexState × List Tok :=
  match st.flush with
  | some pend => ((begin_ c).1, pend ++ (begin_ c).2)
  | none => (.bad, [])

/-- One character: the state after it, and the tokens it ends. -/
def step (lax : Bool) (st : LexState) (c : Char) : LexState × List Tok :=
  match st with
  | .start => begin_ c
  | .word acc =>
    if isWordPart c then (.word (c :: acc), [])
    -- A word right before a quote would be the marker of another kind of string.
    else if isQuote c then (.bad, [])
    else LexState.close (.word acc) c
  | .int acc =>
    if isDigit c then (.int (c :: acc), [])
    else if c = '.' then (.frac (c :: acc), [])
    else if isWordStart c then (.bad, [])
    else LexState.close (.int acc) c
  | .frac acc =>
    if isDigit c || (c == '.' && lax) then (.frac (c :: acc), [])
    else if isWordStart c then (.bad, [])
    else LexState.close (.frac acc) c
  | .dollar => if isDigit c then (.param [c], []) else (.bad, [])
  | .param acc =>
    if isDigit c then (.param (c :: acc), [])
    else if isWordStart c then (.bad, [])
    else LexState.close (.param acc) c
  | .quoted q acc => if c = q then (.quoteEnd q acc, []) else (.quoted q (c :: acc), [])
  | .quoteEnd q acc => if c = q then (.quoted q (c :: acc), []) else LexState.close (.quoteEnd q acc) c
  | .dot => if isDigit c then (.frac [c, '.'], []) else LexState.close .dot c
  | .lt =>
    if c = '=' then (.start, [.le])
    else if c = '>' then (.start, [.ne])
    else LexState.close .lt c
  | .gt => if c = '=' then (.start, [.ge]) else LexState.close .gt c
  | .bang => if c = '=' then (.start, [.ne]) else (.bad, [])
  | .colon => if c = ':' then (.start, [.cast]) else (.bad, [])
  | .bad => (.bad, [])

/-- The state after a text, and the tokens that have ended. -/
def run (lax : Bool) : LexState → List Char → LexState × List Tok
  | st, [] => (st, [])
  | st, c :: cs =>
    ((run lax (step lax st c).1 cs).1, (step lax st c).2 ++ (run lax (step lax st c).1 cs).2)

/-- All tokens of a text, if it does not end inside one. -/
def lex (lax : Bool) (t : String) : Option (List Tok) :=
  ((run lax .start t.toList).1.flush).map ((run lax .start t.toList).2 ++ ·)

variable {lax : Bool}

@[simp] theorem run_nil (st : LexState) : run lax st [] = (st, []) := rfl

theorem run_cons (st : LexState) (c : Char) (cs : List Char) : run lax st (c :: cs) =
      ((run lax (step lax st c).1 cs).1, (step lax st c).2 ++ (run lax (step lax st c).1 cs).2) := rfl

/-- A text is read piece by piece. -/
theorem run_append (st : LexState) (a b : List Char) : run lax st (a ++ b) =
      ((run lax (run lax st a).1 b).1, (run lax st a).2 ++ (run lax (run lax st a).1 b).2) := by
  induction a generalizing st with
  | nil => simp
  | cons c cs ih => rw [cons_append, run_cons, ih, run_cons, append_assoc]

/-! ## Texts and their tokens -/

/-- The characters that end every token in progress. -/
def isDelim (c : Char) : Bool := c = ' ' ∨ c = '(' ∨ c = ')' ∨ c = ','

/-- The text begins with a delimiter. -/
def StartsDelim : List Char → Prop
  | [] => False
  | c :: _ => isDelim c = true

/-- A state between tokens or at the end of one: it owes `pend`, and a delimiter collects them. -/
structure Ends (lax : Bool) (st : LexState) (pend : List Tok) : Prop where
  flush : st.flush = some pend
  delim : ∀ c, isDelim c = true → step lax st c = ((begin_ c).1, pend ++ (begin_ c).2)

/-- `t` is read as `toks` at the end of the input and before a delimiter. -/
def LexesTo (lax : Bool) (t : List Char) (toks : List Tok) : Prop :=
  ∃ st pre pend, run lax .start t = (st, pre) ∧ Ends lax st pend ∧ toks = pre ++ pend

/-- `t` is read as `toks` whatever follows. -/
def Closed (lax : Bool) (t : List Char) (toks : List Tok) : Prop := run lax .start t = (.start, toks)

/-- The delimiters. -/
theorem isDelim_cases {c : Char} (h : isDelim c = true) : c = ' ' ∨ c = '(' ∨ c = ')' ∨ c = ',' := by
  simpa [isDelim] using h

theorem ends_start : Ends lax .start [] := ⟨rfl, fun _ _ => rfl⟩

variable (acc : List Char)

/-- A word ends before a delimiter; the cases below are the other tokens without an end of their own. -/
theorem ends_word : Ends lax (.word acc) [.word (String.ofList (acc.reverse.map Char.toLower))] := by
  refine ⟨rfl, fun c hc => ?_⟩
  rcases isDelim_cases hc with rfl | rfl | rfl | rfl <;> rfl

theorem ends_int : Ends lax (.int acc) [.num (String.ofList acc.reverse)] := by
  refine ⟨rfl, fun c hc => ?_⟩
  rcases isDelim_cases hc with rfl | rfl | rfl | rfl <;> rfl

theorem ends_frac : Ends lax (.frac acc) [.num (String.ofList acc.reverse)] := by
  refine ⟨rfl, fun c hc => ?_⟩
  rcases isDelim_cases hc with rfl | rfl | rfl | rfl <;> rfl

theorem ends_param : Ends lax (.param acc) [.param (String.ofList acc.reverse)] := by
  refine ⟨rfl, fun c hc => ?_⟩
  rcases isDelim_cases hc with rfl | rfl | rfl | rfl <;> rfl

theorem ends_quoteEnd {q : Char} (hq : isQuote q = true) (acc : List Char) :
    Ends lax (.quoteEnd q acc) [quotedTok q (String.ofList acc.reverse)] := by
  have hq' : q = '\'' ∨ q = '"' := by simpa [isQuote] using hq
  refine ⟨rfl, fun c hc => ?_⟩
  rcases hq' with rfl | rfl <;> rcases isDelim_cases hc with rfl | rfl | rfl | rfl <;> rfl

variable {u : List Char} {st : LexState}

/-- A state at the end of a token continues before a delimiter as the start state does. -/
theorem Ends.run {pend : List Tok} (h : Ends lax st pend)
    (hu : StartsDelim u) : run lax st u = ((run lax .start u).1, pend ++ (run lax .start u).2) := by
  cases u with
  | nil => exact absurd hu (by simp [StartsDelim])
  | cons c cs => rw [run_cons, run_cons, h.delim c hu]; simp [step]

variable {t : List Char} {a : List Tok}

theorem Closed.lexesTo (h : Closed lax t a) : LexesTo lax t a :=
  ⟨.start, a, [], h, ends_start, by simp⟩

variable {b : List Tok}

/-- Texts that end outside any token can be joined. -/
theorem Closed.append (ht : Closed lax t a) (hu : Closed lax u b) : Closed lax (t ++ u) (a ++ b) := by
  unfold Closed at *
  rw [run_append, ht, hu]

theorem Closed.append_lexesTo (ht : Closed lax t a) (hu : LexesTo lax u b) : LexesTo lax (t ++ u) (a ++ b) := by
  obtain ⟨st, pre, pend, hrun, hends, rfl⟩ := hu
  refine ⟨st, a ++ pre, pend, ?_, hends, (append_assoc _ _ _).symm⟩
  rw [run_append, ht, hrun]

theorem LexesTo.append_closed (ht : LexesTo lax t a)
    (hd : StartsDelim u) (hu : Closed lax u b) : Closed lax (t ++ u) (a ++ b) := by
  obtain ⟨st, pre, pend, hrun, hends, rfl⟩ := ht
  unfold Closed at *
  rw [run_append, hrun, hends.run hd, hu]
  simp

/-- Texts can be joined where the second begins with a delimiter. -/
theorem LexesTo.append (ht : LexesTo lax t a)
    (hd : StartsDelim u) (hu : LexesTo lax u b) : LexesTo lax (t ++ u) (a ++ b) := by
  obtain ⟨st, pre, pend, hrun, hends, rfl⟩ := ht
  obtain ⟨st', pre', pend', hrun', hends', rfl⟩ := hu
  refine ⟨st', pre ++ pend ++ pre', pend', ?_, hends', by simp⟩
  rw [run_append, hrun, hends.run hd, hrun']
  simp

/-- A text with given tokens is read as these. -/
theorem LexesTo.lex {t : String} {toks : List Tok} (h : LexesTo lax t.toList toks) : lex lax t = some toks := by
  obtain ⟨st, pre, pend, hrun, hends, rfl⟩ := h
  unfold Sql.lex
  rw [hrun, hends.flush]
  rfl

/-! ## Quoted text -/

/-- Doubling the quotes of a text. -/
def escapeQuote (q : Char) (cs : List Char) : List Char :=
  cs.flatMap fun c => if c = q then [q, q] else [c]

/-- Inside quotes, doubled quotes are the text's own. -/
theorem run_quoted (q : Char) (cs acc : List Char) :
    run lax (.quoted q acc) (escapeQuote q cs) = (.quoted q (cs.reverse ++ acc), []) := by
  induction cs generalizing acc with
  | nil => rfl
  | cons c cs ih =>
    rw [escapeQuote, flatMap_cons, ← escapeQuote, run_append]
    by_cases hc : c = q
    · subst hc
      simp [run_cons, step, ih]
    · simp [run_cons, step, hc, ih]

/-- **Quoting is safe**: a text between quotes, its own quotes doubled, is one token with that text. -/
theorem lexesTo_quoted {q : Char} (hq : isQuote q = true) (s : List Char) :
    LexesTo lax (q :: (escapeQuote q s ++ [q])) [quotedTok q (String.ofList s)] := by
  refine ⟨.quoteEnd q s.reverse, [], _, ?_, ends_quoteEnd hq s.reverse, by simp⟩
  have hq' : q = '\'' ∨ q = '"' := by simpa [isQuote] using hq
  have hb : step lax .start q = (.quoted q [], []) := by rcases hq' with rfl | rfl <;> rfl
  rw [run_cons, hb, run_append, run_quoted]
  simp [run_cons, step]

/-! ## Numerals and parameters -/

variable (ds acc : List Char)

/-- A run of digits, in any state that digits do not leave. -/
theorem run_digits {st : List Char → LexState} (h : ds.all isDigit = true)
    (hst : ∀ acc d, isDigit d = true → step lax (st acc) d = (st (d :: acc), [])) :
    run lax (st acc) ds = (st (ds.reverse ++ acc), []) := by
  induction ds generalizing acc with
  | nil => rfl
  | cons d ds ih =>
    obtain ⟨hd, hds⟩ : isDigit d = true ∧ ds.all isDigit = true := by simpa using h
    simp [run_cons, hst _ _ hd, ih _ hds]

theorem run_int (h : ds.all isDigit = true) : run lax (.int acc) ds = (.int (ds.reverse ++ acc), []) :=
  run_digits ds acc h fun _ _ hd => by simp [step, hd]

theorem run_frac (h : ds.all isDigit = true) : run lax (.frac acc) ds = (.frac (ds.reverse ++ acc), []) :=
  run_digits ds acc h fun _ _ hd => by simp [step, hd]

theorem run_param (h : ds.all isDigit = true) : run lax (.param acc) ds = (.param (ds.reverse ++ acc), []) :=
  run_digits ds acc h fun _ _ hd => by simp [step, hd]

theorem isDigit_eq (c : Char) : isDigit c = c.isDigit := by
  simp [isDigit, Char.isDigit, Char.le_def]

variable {d : Char}

theorem isDigit_not_space (h : isDigit d = true) : isSpace d = false := by
  simp only [isDigit, decide_eq_true_eq, Char.le_def, UInt32.le_iff_toNat_le] at h
  simp only [isSpace, decide_eq_false_iff_not, not_or, not_and]
  have h0 : '0'.val.toNat = 48 := rfl
  have hd : d.toNat = d.val.toNat := rfl
  refine ⟨?_, fun _ => by omega⟩
  rintro rfl
  have : ' '.val.toNat = 32 := rfl
  omega

theorem isDigit_not_wordStart (h : isDigit d = true) : isWordStart d = false := by
  simp only [isDigit, decide_eq_true_eq, Char.le_def, UInt32.le_iff_toNat_le] at h
  have h9 : '9'.val.toNat = 57 := rfl
  have hA : 'A'.val.toNat = 65 := rfl
  have ha : 'a'.val.toNat = 97 := rfl
  have hd : d.toNat = d.val.toNat := rfl
  simp only [isWordStart, decide_eq_false_iff_not, not_or, not_and, Char.le_def, UInt32.le_iff_toNat_le]
  refine ⟨?_, fun _ => by omega, fun _ => by omega, by omega⟩
  rintro rfl
  have : '_'.val.toNat = 95 := rfl
  omega

theorem begin_digit (h : isDigit d = true) : begin_ d = (.int [d], []) := by
  simp [begin_, isDigit_not_space h, isDigit_not_wordStart h, h]

/-- The text of an SQL numeral: digits, then at most one point and digits after it. -/
def IsNumeral (cs : List Char) : Prop :=
  ∃ d ds, isDigit d = true ∧ ds.all isDigit = true ∧
    (cs = d :: ds ∨ ∃ fs, fs.all isDigit = true ∧ cs = d :: ds ++ '.' :: fs)

/-- A numeral is one token. -/
theorem lexesTo_num {cs : List Char} (h : IsNumeral cs) : LexesTo lax cs [.num (String.ofList cs)] := by
  obtain ⟨d, ds, hd, hds, rfl | ⟨fs, hfs, rfl⟩⟩ := h
  · refine ⟨.int (ds.reverse ++ [d]), [], _, ?_, ends_int _, by simp⟩
    simp [run_cons, step, begin_digit hd, run_int _ _ hds]
  refine ⟨.frac (fs.reverse ++ '.' :: (ds.reverse ++ [d])), [], _, ?_, ends_frac _, by simp⟩
  rw [run_append, run_cons]
  simp [step, begin_digit hd, run_int _ _ hds, run_cons, run_frac _ _ hfs, isDigit]

/-- Read laxly, a run of digits and points is one token. -/
theorem lexesTo_num_lax {cs : List Char} (hd : isDigit d = true)
    (hcs : cs.all (fun c => isDigit c || c == '.') = true) :
    LexesTo true (d :: cs) [.num (String.ofList (d :: cs))] := by
  have hfrac : ∀ (us acc : List Char), us.all (fun c => isDigit c || c == '.') = true →
      run true (.frac acc) us = (.frac (us.reverse ++ acc), []) := by
    intro us
    induction us with
    | nil => intro acc _; rfl
    | cons u us ih =>
      intro acc hus
      rw [all_cons, Bool.and_eq_true] at hus
      have hstep : step true (.frac acc) u = (.frac (u :: acc), []) := by
        simp only [step, Bool.and_true]
        rw [if_pos hus.1]
      rw [run_cons, hstep, ih _ hus.2]
      simp
  have hint : ∀ (us acc : List Char), us.all (fun c => isDigit c || c == '.') = true →
      ∃ st, run true (.int acc) us = (st, []) ∧ Ends true st [.num (String.ofList (acc.reverse ++ us))] := by
    intro us
    induction us with
    | nil => intro acc _; exact ⟨_, rfl, by simpa using ends_int acc⟩
    | cons u us ih =>
      intro acc hus
      rw [all_cons, Bool.and_eq_true] at hus
      by_cases hu : isDigit u = true
      · obtain ⟨st, hrun, hends⟩ := ih (u :: acc) hus.2
        refine ⟨st, ?_, by simpa using hends⟩
        have hstep : step true (.int acc) u = (.int (u :: acc), []) := by simp [step, hu]
        rw [run_cons, hstep, hrun]
        rfl
      obtain rfl : u = '.' := by simpa [hu] using hus.1
      refine ⟨.frac (us.reverse ++ '.' :: acc), ?_, ?_⟩
      · have hstep : step true (.int acc) '.' = (.frac ('.' :: acc), []) := rfl
        rw [run_cons, hstep, hfrac _ _ hus.2]
        rfl
      · simpa using ends_frac (us.reverse ++ '.' :: acc)
  obtain ⟨st, hrun, hends⟩ := hint cs [d] hcs
  refine ⟨st, [], _, ?_, hends, by simp⟩
  have hstep : step true .start d = (.int [d], []) := begin_digit hd
  rw [run_cons, hstep, hrun]
  rfl

/-- `$` and digits are one token. -/
theorem lexesTo_param {ds : List Char} (hd : isDigit d = true) (hds : ds.all isDigit = true) :
    LexesTo lax ('$' :: d :: ds) [.param (String.ofList (d :: ds))] := by
  refine ⟨.param (ds.reverse ++ [d]), [], _, ?_, ends_param _, by simp⟩
  have hb : step lax .start '$' = (.dollar, []) := rfl
  have hd' : step lax .dollar d = (.param [d], []) := by simp [step, hd]
  rw [run_cons, hb, run_cons, hd', run_param _ _ hds]
  rfl

/-! ## Every number token is a numeral -/

/-- A number in progress has no point yet, or at most one. -/
def LexState.Ok : LexState → Prop
  | .int acc => acc.count '.' = 0
  | .frac acc => acc.count '.' ≤ 1
  | _ => True

/-- The number tokens have at most one point. -/
def NumToksOk (toks : List Tok) : Prop := ∀ s, .num s ∈ toks → s.toList.count '.' ≤ 1

theorem NumToksOk.nil : NumToksOk [] := by simp [NumToksOk]

theorem NumToksOk.append (ha : NumToksOk a) (hb : NumToksOk b) : NumToksOk (a ++ b) := by
  intro s hs
  rcases mem_append.mp hs with hs | hs
  · exact ha s hs
  · exact hb s hs

theorem flush_ok {pend : List Tok} (hst : st.Ok) (h : st.flush = some pend) : NumToksOk pend := by
  cases st <;> simp only [LexState.flush, Option.some.injEq, reduceCtorEq] at h <;> subst h <;> intro s hs
  case int acc =>
    simp only [mem_singleton, Tok.num.injEq] at hs
    subst hs
    have hcount : acc.count '.' = 0 := hst
    simp [hcount]
  case frac acc =>
    simp only [mem_singleton, Tok.num.injEq] at hs
    subst hs
    have hcount : acc.count '.' ≤ 1 := hst
    simpa using hcount
  case quoteEnd q acc =>
    simp only [mem_singleton, quotedTok] at hs
    split at hs <;> cases hs
  all_goals simp at hs

theorem isDigit_ne_dot {c : Char} (h : isDigit c = true) : c ≠ '.' := by
  rintro rfl
  revert h
  decide

theorem begin_ok (c : Char) : (begin_ c).1.Ok ∧ NumToksOk (begin_ c).2 := by
  unfold begin_
  split
  · exact ⟨trivial, .nil⟩
  split
  · exact ⟨trivial, .nil⟩
  split
  · rename_i hd
    exact ⟨by simp [LexState.Ok, isDigit_ne_dot hd], .nil⟩
  split
  · exact ⟨trivial, .nil⟩
  split <;> exact ⟨trivial, by simp [NumToksOk]⟩

theorem close_ok (hst : st.Ok) (c : Char) : (st.close c).1.Ok ∧ NumToksOk (st.close c).2 := by
  unfold LexState.close
  split
  · rename_i pend hpend
    exact ⟨(begin_ok c).1, (flush_ok hst hpend).append (begin_ok c).2⟩
  · exact ⟨trivial, .nil⟩

/-- No step makes a numeral with two points. -/
theorem step_ok (hst : st.Ok) (c : Char) : (step false st c).1.Ok ∧ NumToksOk (step false st c).2 := by
  have quiet : ∀ {st' : LexState}, st'.Ok → st'.Ok ∧ NumToksOk [] := fun h => ⟨h, .nil⟩
  unfold step
  split
  · exact begin_ok c
  · split
    · exact quiet trivial
    split
    · exact quiet trivial
    · exact close_ok hst c
  · rename_i acc
    have hcount : acc.count '.' = 0 := hst
    split
    · rename_i hd
      exact quiet (by simp [LexState.Ok, hcount, isDigit_ne_dot hd])
    split
    · rename_i hdot
      exact quiet (by simp [LexState.Ok, hcount, hdot])
    split
    · exact quiet trivial
    · exact close_ok hst c
  · rename_i acc
    have hcount : acc.count '.' ≤ 1 := hst
    split
    · rename_i hd
      have hne : c ≠ '.' := isDigit_ne_dot (by simpa using hd)
      exact quiet (by simpa [LexState.Ok, hne] using hcount)
    split
    · exact quiet trivial
    · exact close_ok hst c
  · split <;> exact quiet trivial
  · split
    · exact quiet trivial
    split
    · exact quiet trivial
    · exact close_ok hst c
  · split <;> exact quiet trivial
  · split
    · exact quiet trivial
    · exact close_ok hst c
  · split
    · rename_i hd
      exact quiet (by simp [LexState.Ok, isDigit_ne_dot hd])
    · exact close_ok hst c
  · split
    · exact ⟨trivial, by simp [NumToksOk]⟩
    split
    · exact ⟨trivial, by simp [NumToksOk]⟩
    · exact close_ok hst c
  · split
    · exact ⟨trivial, by simp [NumToksOk]⟩
    · exact close_ok hst c
  iterate 2 split <;> exact ⟨trivial, by simp [NumToksOk]⟩
  · exact quiet trivial

/-- Number tokens have at most one point, when the reading is strict. -/
theorem run_ok (hst : st.Ok) (cs : List Char) : (run false st cs).1.Ok ∧ NumToksOk (run false st cs).2 := by
  induction cs generalizing st with
  | nil => exact ⟨hst, .nil⟩
  | cons c cs ih =>
    have hs := step_ok hst c
    have hr := ih hs.1
    exact ⟨hr.1, hs.2.append hr.2⟩

/-- **Every number token of a text is a numeral**: it has at most one point. -/
theorem lex_numToksOk {t : String} {toks : List Tok} (h : lex false t = some toks) : NumToksOk toks := by
  have hstart : LexState.Ok .start := trivial
  have hrun := run_ok hstart t.toList
  obtain ⟨pend, hflush, rfl⟩ := Option.map_eq_some_iff.mp h
  exact hrun.2.append (flush_ok hrun.1 hflush)

end GoErp.Lib.Sql
