import GoErp.Domain.Spelling
import GoErp.Lib.Encoding

/-!
# `Shell.ConditionLexer` — the shell's tokens

`domain/lexer.ts`. A JavaScript string is its UTF-16 code units; the engine's lexer reads the UTF-8 bytes of the same
text. Outside string literals the shell refuses whatever is not ASCII, and there both lexers cut the text alike:
`tokenize_spells` says that a text the shell can read is spelled by the same lexemes for the engine.
-/

namespace GoErp.Shell

open Lib List

/-- A JavaScript string. -/
abbrev JsString := List UInt16

/-- A string literal of the source. -/
def js (s : String) : JsString := utf16.text s.toList

/-- The bytes of a text, as the engine has it. -/
def goString (s : String) : String := String.ofList (utf8.text s.toList)

/-- The kinds of `lexer.ts`. -/
inductive TokenKind where
  | eof | ident | string | number | dot | lparen | rparen | comma
  | eq | neq | lt | gt | lte | gte
  | plus | minus | star | slash
  | and | or | not | in_ | is | null | true_ | false_ | like | ilike | childOf | parentOf
  deriving DecidableEq, Repr

structure Token where
  kind : TokenKind
  text : JsString
  pos : Nat
  deriving DecidableEq, Repr

/-- The errors of the parse phase, with the data their messages print. -/
inductive ConditionError where
  /-- `expression is longer than 2048 characters` -/
  | tooLong
  /-- `unexpected character "%s"` -/
  | unexpectedChar (c : UInt16) (pos : Nat)
  /-- `unterminated string literal` -/
  | unterminated (pos : Nat)
  /-- `invalid number literal "%s"` -/
  | invalidNumber (text : JsString) (pos : Nat)
  /-- `%s is search-domain and ABAC only, not supported here` -/
  | searchOnly (op : TokenKind) (pos : Nat)
  /-- `expected %s, got %s` -/
  | expected (what : String) (got : Token)
  /-- `expected "record.{field}"` -/
  | recordField (pos : Nat)
  /-- `unexpected %s` -/
  | unexpected (got : Token)
  /-- `expression is nested too deeply` -/
  | nestedTooDeeply (pos : Nat)
  /-- `number literal "%s" is too large` -/
  | tooLarge (text : JsString) (pos : Nat)
  /-- `unknown user attribute "%s" (expected id, contact_id or tenant_id)` -/
  | unknownAttribute (text : JsString) (pos : Nat)
  /-- `tenant.{field} is not bound in shell-evaluated expressions` -/
  | tenant (pos : Nat)
  /-- `unknown identifier "%s"` -/
  | unknownIdentifier (text : JsString) (pos : Nat)
  | outOfFuel
  deriving DecidableEq, Repr

/-! ## The lexer -/

/-- The code unit of a character of the source's literals. -/
def unit (c : Char) : UInt16 := UInt16.ofNat c.toNat

def isDigit (c : UInt16) : Bool := unit '0' ≤ c && c ≤ unit '9'

def isIdentStart (c : UInt16) : Bool :=
  c = unit '_' || (unit 'a' ≤ c && c ≤ unit 'z') || (unit 'A' ≤ c && c ≤ unit 'Z')

def isIdentPart (c : UInt16) : Bool := isIdentStart c || isDigit c

def isSpace (c : UInt16) : Bool :=
  c = unit ' ' || c = unit '\t' || c = unit '\n' || c = unit '\r' || c = 0x0B || c = 0x0C

/-- `SINGLE_CHAR` -/
def singleChar (c : UInt16) : Option TokenKind :=
  if c = unit '.' then some .dot
  else if c = unit '(' then some .lparen
  else if c = unit ')' then some .rparen
  else if c = unit ',' then some .comma
  else if c = unit '=' then some .eq
  else none

/-- `ARITHMETIC_CHAR` -/
def arithmeticChar (c : UInt16) : Option TokenKind :=
  if c = unit '+' then some .plus
  else if c = unit '-' then some .minus
  else if c = unit '*' then some .star
  else if c = unit '/' then some .slash
  else none

/-- `KEYWORDS` -/
def keywords : String → Option TokenKind
  | "and" => some .and
  | "or" => some .or
  | "not" => some .not
  | "in" => some .in_
  | "is" => some .is
  | "null" => some .null
  | "true" => some .true_
  | "false" => some .false_
  | "like" => some .like
  | "ilike" => some .ilike
  | "child_of" => some .childOf
  | "parent_of" => some .parentOf
  | _ => none

/-- `toLowerCase` of an identifier, which is ASCII. -/
def toLowerCase (c : UInt16) : UInt16 := if unit 'A' ≤ c && c ≤ unit 'Z' then c + 32 else c

/-- ASCII code units as a text. -/
def asciiText (text : JsString) : String := String.ofList (text.map fun c => Char.ofNat c.toNat)

/-- `NUMBER_LITERAL`: `^\d+(\.\d+)?$` -/
def isNumberLiteral (text : JsString) : Bool :=
  text.takeWhile isDigit ≠ [] &&
    match text.dropWhile isDigit with
    | [] => true
    | c :: fraction => c = unit '.' && fraction ≠ [] && fraction.all isDigit

/-- What a lexing step leaves: the token, the position after it and the unread code units. -/
abbrev Lexed := Token × Nat × JsString

/-- The body of a string literal; `none` if it does not end. -/
def lexString (value : JsString) (pos : Nat) : JsString → Option (JsString × Nat × JsString)
  | [] => none
  | c :: cs =>
    if c = unit '\'' then
      match cs with
      | [] => some (value, pos + 1, [])
      | d :: ds =>
        -- a doubled quote is one quote
        if d = unit '\'' then lexString (value ++ [unit '\'']) (pos + 2) ds
        else some (value, pos + 1, d :: ds)
    else lexString (value ++ [c]) (pos + 1) cs

/-- Points are part of a number wherever they stand. -/
def isNumberPart (c : UInt16) : Bool := isDigit c || c = unit '.'

/-- The round of the loop after the spaces are skipped. -/
def nextAt (arithmetic : Bool) (start : Nat) : JsString → Except ConditionError Lexed
  | [] => .ok (⟨.eof, [], start⟩, start, [])
  | c :: cs =>
    match singleChar c with
    | some kind => .ok (⟨kind, [c], start⟩, start + 1, cs)
    | none =>
      match if arithmetic then arithmeticChar c else none with
      | some kind => .ok (⟨kind, [c], start⟩, start + 1, cs)
      | none =>
        let orEqual : Bool := cs.head? = some (unit '=')
        if c = unit '!' then
          if orEqual then .ok (⟨.neq, js "!=", start⟩, start + 2, cs.tail)
          else .error (.unexpectedChar c start)
        else if c = unit '<' then
          if orEqual then .ok (⟨.lte, js "<=", start⟩, start + 2, cs.tail)
          else .ok (⟨.lt, js "<", start⟩, start + 1, cs)
        else if c = unit '>' then
          if orEqual then .ok (⟨.gte, js ">=", start⟩, start + 2, cs.tail)
          else .ok (⟨.gt, js ">", start⟩, start + 1, cs)
        else if c = unit '\'' then
          match lexString [] (start + 1) cs with
          | none => .error (.unterminated start)
          | some (value, pos, rest) => .ok (⟨.string, value, start⟩, pos, rest)
        else if isDigit c then
          let text := (c :: cs).takeWhile isNumberPart
          if isNumberLiteral text then
            .ok (⟨.number, text, start⟩, start + text.length, (c :: cs).dropWhile isNumberPart)
          else .error (.invalidNumber text start)
        else if isIdentStart c then
          let text := (c :: cs).takeWhile isIdentPart
          .ok (⟨(keywords (asciiText (text.map toLowerCase))).getD .ident, text, start⟩, start + text.length,
            (c :: cs).dropWhile isIdentPart)
        else .error (.unexpectedChar c start)

/-- The loop of `tokenize`; each token shortens the text, so its length is fuel enough. -/
def tokenizeFrom (arithmetic : Bool) : Nat → Nat → JsString → Except ConditionError (List Token)
  | 0, _, _ => .error .outOfFuel
  | fuel + 1, pos, src =>
    match nextAt arithmetic (pos + (src.takeWhile isSpace).length) (src.dropWhile isSpace) with
    | .error e => .error e
    | .ok (tok, pos', rest) =>
      if tok.kind = .eof then .ok [tok]
      else match tokenizeFrom arithmetic fuel pos' rest with
        | .error e => .error e
        | .ok toks => .ok (tok :: toks)

def tokenize (src : JsString) (arithmetic : Bool) : Except ConditionError (List Token) :=
  tokenizeFrom arithmetic (src.length + 1) 0 src

/-! ## The same text in both encodings -/

/-- The two strings are one text. -/
def SameText (u : JsString) (t : String) : Prop := ∃ s : String, u = js s ∧ t = goString s

/-- The engine's name of a kind. -/
def TokenKind.engine? : TokenKind → Option Domain.TokenKind
  | .eof => some .eof
  | .ident => some .ident
  | .string => some .string
  | .number => some .number
  | .dot => some .dot
  | .lparen => some .lparen
  | .rparen => some .rparen
  | .comma => some .comma
  | .eq => some .eq
  | .neq => some .neq
  | .lt => some .lt
  | .gt => some .gt
  | .lte => some .lte
  | .gte => some .gte
  | .plus | .minus | .star | .slash => none
  | .and => some .and
  | .or => some .or
  | .not => some .not
  | .in_ => some .in_
  | .is => some .is
  | .null => some .null
  | .true_ => some .true_
  | .false_ => some .false_
  | .like => some .like
  | .ilike => some .ilike
  | .childOf => some .childOf
  | .parentOf => some .parentOf

/-- The token is the engine's lexeme. -/
structure SameToken (t : Token) (l : Domain.Lexeme) : Prop where
  kind : t.kind.engine? = some l.1
  text : SameText t.text l.2
  /-- only string literals hold other characters -/
  ascii : t.kind ≠ .string → asciiText t.text = l.2

/-! ### Classes of characters -/

variable {u : UInt16}

theorem isIdentPart_lt (h : isIdentPart u = true) : u.toNat < 128 := by
  simp only [isIdentPart, isIdentStart, isDigit, Bool.or_eq_true, Bool.and_eq_true, decide_eq_true_eq,
    UInt16.le_iff_toNat_le] at h
  rcases h with ((rfl | ⟨-, h⟩) | ⟨-, h⟩) | ⟨-, h⟩
  · decide
  all_goals exact Nat.lt_of_le_of_lt h (by decide)

theorem isNumberPart_lt (h : isNumberPart u = true) : u.toNat < 128 := by
  rw [isNumberPart, Bool.or_eq_true] at h
  rcases h with h | h
  · exact isIdentPart_lt (by rw [isIdentPart, h, Bool.or_true])
  · rw [of_decide_eq_true h]
    decide

theorem isSpace_lt (h : isSpace u = true) : u.toNat < 128 := by
  simp only [isSpace, Bool.or_eq_true, decide_eq_true_eq] at h
  rcases h with ((((rfl | rfl) | rfl) | rfl) | rfl) | rfl <;> decide

/-- The spaces both lexers skip. -/
def asciiSpace (c : Char) : Bool := Domain.isSpace c && c.toNat < 128

theorem eq_false_of_lt {α : Type} {q : α → Bool} {size : α → Nat} (h : ∀ {a}, q a = true → size a < 128) (a : α)
    (ha : 128 ≤ size a) : q a = false := by
  by_contra hq
  have hlt := h (by simpa using hq)
  omega

variable {c : Char}

theorem numberPart_lt (h : Domain.isNumberPart c = true) : c.toNat < 128 := by
  rw [Domain.isNumberPart, Bool.or_eq_true] at h
  rcases h with h | h
  · have hpart : Domain.isIdentPart c = true := by rw [Domain.isIdentPart, h, Bool.or_true]
    have hrange := Domain.isIdentPart_toNat hpart
    omega
  · rw [beq_iff_eq.mp h]
    decide

theorem identPart_lt (h : Domain.isIdentPart c = true) : c.toNat < 128 := by
  have hrange := Domain.isIdentPart_toNat h
  omega

/-- A character of an identifier is one code unit, of the same class on both sides. -/
theorem isIdentPart_decides : utf16.Decides Domain.isIdentPart isIdentPart :=
  utf16_decides (by decide) (eq_false_of_lt identPart_lt) (eq_false_of_lt isIdentPart_lt)

theorem isNumberPart_decides : utf16.Decides Domain.isNumberPart isNumberPart :=
  utf16_decides (by decide) (eq_false_of_lt numberPart_lt) (eq_false_of_lt isNumberPart_lt)

theorem isSpace_decides : utf16.Decides asciiSpace isSpace :=
  utf16_decides (by decide)
    (eq_false_of_lt fun h => of_decide_eq_true (Bool.and_eq_true_iff.mp h).2) (eq_false_of_lt isSpace_lt)

/-! ### Texts of ASCII characters -/

/-- An ASCII character is one code unit. -/
theorem text16_cons (h : c.toNat < 128) (s : List Char) :
    utf16.text (c :: s) = unit c :: utf16.text s := utf16.text_cons_ascii h s

variable {w : List Char} (h : ∀ c ∈ w, c.toNat < 128)

include h

theorem js_ofList : js (String.ofList w) = w.map unit := by
  rw [js, String.toList_ofList, utf16.text_ascii h]
  rfl

theorem goString_ofList : goString (String.ofList w) = String.ofList w := by
  rw [goString, String.toList_ofList, utf8.text_ascii h]
  exact congrArg String.ofList (map_id w)

theorem sameText_ofList : SameText (w.map unit) (String.ofList w) :=
  ⟨String.ofList w, (js_ofList h).symm, (goString_ofList h).symm⟩

theorem asciiText_map : asciiText (w.map unit) = String.ofList w := by
  have hchar : ∀ {c : Char}, c.toNat < 128 → Char.ofNat (unit c).toNat = c :=
    ascii_forall (P := fun c => Char.ofNat (unit c).toNat = c) (by decide)
  rw [asciiText, List.map_map]
  refine congrArg String.ofList ?_
  conv => rhs; rw [← map_id w]
  exact map_congr_left fun c hc => hchar (h c hc)

variable {kind : TokenKind}

/-- A token of ASCII characters. -/
theorem sameToken_ascii {k : Domain.TokenKind} (hkind : kind.engine? = some k) (pos : Nat) :
    SameToken ⟨kind, w.map unit, pos⟩ (k, String.ofList w) :=
  ⟨hkind, sameText_ofList h, fun _ => asciiText_map h⟩

omit h

/-- A token of fixed text. -/
theorem sameToken_literal {w : String} (h : ∀ c ∈ w.toList, c.toNat < 128) {k : Domain.TokenKind}
    (hkind : kind.engine? = some k) (pos : Nat) : SameToken ⟨kind, js w, pos⟩ (k, w) := by
  have htok := sameToken_ascii h hkind pos
  rwa [← js_ofList h, String.ofList_toList] at htok

/-- Different texts are different strings in the browser. -/
theorem js_injective : Function.Injective js := by
  intro s t h
  exact String.toList_inj.mp (utf16.text_inj.mp h)

theorem goString_injective : Function.Injective goString := by
  intro s t h
  exact String.toList_inj.mp (utf8.text_inj.mp (String.ofList_injective h))

variable {v : JsString}

/-- Both see one text. -/
theorem SameText.eq_iff {u : JsString} {t r : String} (h : SameText u t) (h' : SameText v r) : u = v ↔ t = r := by
  obtain ⟨s, rfl, rfl⟩ := h
  obtain ⟨s', rfl, rfl⟩ := h'
  rw [js_injective.eq_iff, goString_injective.eq_iff]

theorem sameText_literal {w : String} (h : ∀ c ∈ w.toList, c.toNat < 128) : SameText (js w) w := by
  refine ⟨w, rfl, ?_⟩
  have hgo := goString_ofList h
  rwa [String.ofList_toList, eq_comm] at hgo

/-! ### String literals -/

/-- Characters other than quotes are copied. -/
theorem lexString_skip {us : JsString} (h : ∀ u ∈ us, u ≠ unit '\'') (value : JsString) (pos : Nat) (rest : JsString) :
    lexString value pos (us ++ rest) = lexString (value ++ us) (pos + us.length) rest := by
  induction us generalizing value pos with
  | nil => rw [nil_append, append_nil, length_nil, Nat.add_zero]
  | cons u us ih =>
    rw [cons_append, lexString.eq_def]
    dsimp only
    rw [if_neg (h u mem_cons_self), ih fun v hv => h v (mem_cons_of_mem u hv), append_assoc,
      length_cons, Nat.add_assoc, Nat.add_comm 1]
    rfl

theorem encode_ne_quote (hc : c ≠ '\'') : ∀ u ∈ utf16.encode c, u ≠ unit '\'' := by
  intro u hu
  by_cases hlt : c.toNat < 128
  · rw [utf16.ascii hlt, mem_singleton] at hu
    subst hu
    exact fun heq => hc (utf16.unit_inj hlt (by decide) heq)
  · exact (utf16.other (Nat.le_of_not_lt hlt)).2 u hu '\'' (by decide)

theorem escapeQuote_cons_ne (hc : c ≠ '\'') (t : List Char) :
    Sql.escapeQuote '\'' (c :: t) = c :: Sql.escapeQuote '\'' t := by
  rw [Sql.escapeQuote, flatMap_cons, if_neg hc]
  rfl

variable {rest : JsString} {s : List Char} {pos pos' : Nat}

/-- A string literal that the shell ends is a quoted text. -/
theorem lexString_text {value : JsString} (h : lexString value pos (utf16.text s) = some (v, pos', rest)) :
    ∃ t s', s = Sql.escapeQuote '\'' t ++ '\'' :: s' ∧ (∀ r, s' ≠ '\'' :: r) ∧ v = value ++ utf16.text t ∧
      rest = utf16.text s' := by
  -- a doubled quote is two characters, so the induction is on the length
  induction hn : s.length using Nat.strongRecOn generalizing s value pos with
  | ind n ih =>
    cases s with
    | nil => cases h
    | cons c s =>
      subst hn
      by_cases hc : c = '\''
      · subst hc
        rw [text16_cons (by decide), lexString.eq_def] at h
        dsimp only at h
        rw [if_pos rfl] at h
        cases s with
        | nil =>
          cases h
          exact ⟨[], [], rfl, nofun, (append_nil _).symm, rfl⟩
        | cons d s =>
          by_cases hd : d = '\''
          · subst hd
            rw [text16_cons (by decide)] at h
            dsimp only at h
            rw [if_pos rfl] at h
            obtain ⟨t, s', rfl, hs', rfl, rfl⟩ := ih _ (by simp only [length_cons]; omega) h rfl
            exact ⟨'\'' :: t, s', rfl, hs', by rw [append_assoc]; rfl, rfl⟩
          · obtain ⟨u, us, htext, hu⟩ : ∃ u us, utf16.text (d :: s) = u :: us ∧ u ≠ unit '\'' := by
              rcases utf16.text_cons_cases d s with ⟨hlt, htext⟩ | ⟨u, us, htext, hu⟩
              · exact ⟨_, _, htext, fun heq => hd (utf16.unit_inj hlt (by decide) heq)⟩
              · exact ⟨u, us, htext, hu '\'' (by decide)⟩
            rw [htext] at h
            dsimp only at h
            rw [if_neg hu] at h
            cases h
            exact ⟨[], d :: s, rfl, fun r hr => hd (List.cons.inj hr).1, (append_nil _).symm, htext.symm⟩
      · rw [utf16.text_cons, lexString_skip (encode_ne_quote hc)] at h
        obtain ⟨t, s', rfl, hs', rfl, rfl⟩ := ih _ (by simp only [length_cons]; omega) h rfl
        refine ⟨c :: t, s', ?_, hs', ?_, rfl⟩
        · rw [escapeQuote_cons_ne hc]
          rfl
        · rw [utf16.text_cons, append_assoc]

/-- Doubling quotes commutes with the encoding. -/
theorem text_escapeQuote (t : List Char) : utf8.text (Sql.escapeQuote '\'' t) = Sql.escapeQuote '\'' (utf8.text t) := by
  have hskip : ∀ us : List Char, (∀ u ∈ us, u ≠ '\'') → Sql.escapeQuote '\'' us = us := by
    intro us hus
    induction us with
    | nil => rfl
    | cons u us ih =>
      rw [escapeQuote_cons_ne (hus u mem_cons_self), ih fun v hv => hus v (mem_cons_of_mem u hv)]
  induction t with
  | nil => rfl
  | cons c t ih =>
    by_cases hc : c = '\''
    · subst hc
      rw [utf8.text_cons_ascii (by decide)]
      show utf8.text ('\'' :: '\'' :: Sql.escapeQuote '\'' t) = '\'' :: '\'' :: Sql.escapeQuote '\'' (utf8.text t)
      rw [utf8.text_cons_ascii (by decide), utf8.text_cons_ascii (by decide), ih]
      rfl
    have hunits : ∀ u ∈ utf8.encode c, u ≠ '\'' := by
      intro u hu
      by_cases hlt : c.toNat < 128
      · rw [utf8.ascii hlt, mem_singleton] at hu
        rw [hu]
        exact hc
      · exact (utf8.other (Nat.le_of_not_lt hlt)).2 u hu '\'' (by decide)
    have happend : Sql.escapeQuote '\'' (utf8.encode c ++ utf8.text t) =
        Sql.escapeQuote '\'' (utf8.encode c) ++ Sql.escapeQuote '\'' (utf8.text t) := flatMap_append
    rw [escapeQuote_cons_ne hc, utf8.text_cons, utf8.text_cons, ih, happend, hskip _ hunits]

/-! ### One token -/

theorem le_of_ne_unit (h : ∀ d : Char, d.toNat < 128 → u ≠ utf16.unit d) : 128 ≤ u.toNat := by
  by_contra hlt
  have hnat : (Char.ofNat u.toNat).toNat = u.toNat := by
    rw [Char.ofNat, dif_pos (Or.inl (by omega))]
    rfl
  refine h (Char.ofNat u.toNat) (by omega) ?_
  show u = UInt16.ofNat (Char.ofNat u.toNat).toNat
  rw [hnat, UInt16.ofNat_toNat]

/-- The shell refuses every other code unit outside a literal. -/
theorem nextAt_other (h : ∀ d : Char, d.toNat < 128 → u ≠ utf16.unit d) (start : Nat) (us : JsString) :
    nextAt false start (u :: us) = .error (.unexpectedChar u start) := by
  have hunit : ∀ d : Char, d.toNat < 128 → u ≠ unit d := h
  have hle := le_of_ne_unit h
  have hsingle : singleChar u = none := by
    simp only [singleChar, hunit '.' (by decide), hunit '(' (by decide), hunit ')' (by decide), hunit ',' (by decide),
      hunit '=' (by decide), if_false]
  have hpart : isIdentPart u = false := eq_false_of_lt isIdentPart_lt u hle
  rw [isIdentPart, Bool.or_eq_false_iff] at hpart
  rw [nextAt.eq_def]
  simp only [hsingle, Bool.false_eq_true, if_false, hunit '!' (by decide), hunit '<' (by decide), hunit '>' (by decide),
    hunit '\'' (by decide), hpart.1, hpart.2]

theorem breaks_text {d : Char} (hd : d.toNat < 128) (h : ∀ s', s ≠ d :: s') : Domain.Breaks (· == d) (utf8.text s) := by
  cases s with
  | nil => exact Domain.breaks_nil _
  | cons c s =>
    rcases utf8.text_cons_cases c s with ⟨-, htext⟩ | ⟨u, us, htext, hu⟩
    · rw [htext]
      refine Domain.breaks_cons ?_
      rw [beq_eq_false_iff_ne]
      exact fun heq => h s (by rw [show c = d from heq])
    rw [htext]
    refine Domain.breaks_cons ?_
    rw [beq_eq_false_iff_ne]
    exact hu d hd

/-- A run of ASCII characters of a class, in both encodings. -/
theorem scan_text {p : Char → Bool} {q : UInt16 → Bool} (h : utf16.Decides p q) (hp : ∀ {c}, p c = true → c.toNat < 128)
    (s : List Char) :
    (utf16.text s).takeWhile q = (s.takeWhile p).map unit ∧ (utf16.text s).dropWhile q = utf16.text (s.dropWhile p) ∧
      utf8.text s = s.takeWhile p ++ utf8.text (s.dropWhile p) ∧ Domain.Breaks p (utf8.text (s.dropWhile p)) := by
  have hascii : ∀ c ∈ s.takeWhile p, c.toNat < 128 := fun c hc =>
    hp (all_eq_true.mp all_takeWhile c hc)
  have h8 : utf8.Decides p p := utf8_decides (eq_false_of_lt hp)
  obtain ⟨htake, hdrop⟩ := h.split s
  obtain ⟨-, hdrop8⟩ := h8.split s
  refine ⟨?_, hdrop, ?_, ?_⟩
  · rw [htake, utf16.text_ascii hascii]
    rfl
  · have hself : utf8.text (s.takeWhile p) = s.takeWhile p := by
      rw [utf8.text_ascii hascii]
      exact map_id _
    rw [← hself, ← utf8.text_append, takeWhile_append_dropWhile]
  · rw [← hdrop8]
    exact Domain.breaks_dropWhile p _

/-- The key words are the engine's. -/
theorem keywords_engine (s : String) : ((keywords s).getD .ident).engine? = some ((Domain.keywords s).getD .ident) := by
  unfold keywords
  split
  case h_13 => simp_all [Domain.keywords, TokenKind.engine?]
  all_goals rfl

theorem asciiText_toLowerCase (h : ∀ c ∈ w, c.toNat < 128) :
    asciiText ((w.map unit).map toLowerCase) = String.ofList (w.map Char.toLower) := by
  have hchar : ∀ {c : Char}, c.toNat < 128 → Char.ofNat (toLowerCase (unit c)).toNat = c.toLower :=
    ascii_forall (P := fun c => Char.ofNat (toLowerCase (unit c)).toNat = c.toLower) (by decide)
  rw [asciiText, List.map_map, List.map_map]
  exact congrArg String.ofList (map_congr_left fun c hc => hchar (h c hc))

/-- The symbols of one character are the engine's. -/
theorem singleChar_symbols (hc : c.toNat < 128) (h : singleChar (unit c) = some kind) :
    ∃ x ∈ Domain.symbols, x.1 = String.ofList [c] ∧ kind.engine? = some x.2 ∧ x.2 ≠ .eof := by
  have hall : (singleChar (unit c)).all (fun kind => Domain.symbols.any fun x =>
      x.1 = String.ofList [c] && kind.engine? = some x.2 && x.2 ≠ .eof) = true :=
    ascii_forall (P := fun c => (singleChar (unit c)).all (fun kind => Domain.symbols.any fun x =>
      x.1 = String.ofList [c] && kind.engine? = some x.2 && x.2 ≠ .eof) = true) (by decide) hc
  rw [h, Option.all_some, List.any_eq_true] at hall
  simpa [and_assoc] using hall

/-- **A token of the shell is one of the engine's**, and both go on at the same character. -/
theorem nextAt_shape {start : Nat} {tok : Token}
    (h : nextAt false start (utf16.text (c :: s)) = .ok (tok, pos', rest)) :
    ∃ s' l, rest = utf16.text s' ∧ SameToken tok l ∧ Domain.Shape (utf8.text (c :: s)) l.1 l.2 (utf8.text s') ∧
      l.1 ≠ .eof := by
  rcases utf16.text_cons_cases c s with ⟨hc, htext⟩ | ⟨u, us, htext, hu⟩
  case inr =>
    rw [htext, nextAt_other hu] at h
    cases h
  rw [show utf16.text (c :: s) = unit c :: utf16.text s from htext, nextAt.eq_def] at h
  have h8 : utf8.text (c :: s) = c :: utf8.text s := utf8.text_cons_ascii hc s
  have hunit : ∀ {d : Char}, d.toNat < 128 → unit c = unit d → c = d := fun hd heq => utf16.unit_inj hc hd heq
  -- the operators of two characters
  have hpair : ∀ {w : String} {k : Domain.TokenKind} {kind : TokenKind}, w.toList = [c, '='] →
      (w, k) ∈ Domain.symbols → kind.engine? = some k → k ≠ .eof →
        decide ((utf16.text s).head? = some (unit '=')) = true →
      ∃ s' l, (utf16.text s).tail = utf16.text s' ∧ SameToken ⟨kind, js w, start⟩ l ∧
        Domain.Shape (utf8.text (c :: s)) l.1 l.2 (utf8.text s') ∧ l.1 ≠ .eof := by
    intro w k kind hw hmem hkind hne hhead
    obtain ⟨s', rfl, htail⟩ := Encoding.eq_cons_of_head? (by decide) (of_decide_eq_true hhead)
    have hascii : ∀ d ∈ w.toList, d.toNat < 128 := by
      rw [hw, forall_mem_cons, forall_mem_singleton]
      exact ⟨hc, by decide⟩
    refine ⟨s', (k, w), htail, sameToken_literal hascii hkind start, ?_, hne⟩
    have hshape := @Domain.Shape.symbol _ _ (utf8.text s') hmem
    rw [h8, utf8.text_cons_ascii (by decide)]
    rwa [hw] at hshape
  have hbreaks : ¬ (utf16.text s).head? = some (unit '=') → Domain.Breaks (· == '=') (utf8.text s) := by
    intro hhead
    refine breaks_text (by decide) fun s' hs' => hhead ?_
    rw [hs', text16_cons (by decide)]
    rfl
  dsimp only at h
  split at h
  · rename_i kind hsingle
    cases h
    obtain ⟨⟨w, k⟩, hmem, rfl, hkind, hne⟩ := singleChar_symbols hc hsingle
    refine ⟨s, (k, String.ofList [c]), rfl, sameToken_ascii (w := [c]) (by simpa using hc) hkind start, ?_, hne⟩
    have hshape := @Domain.Shape.symbol _ _ (utf8.text s) hmem
    rwa [String.toList_ofList, singleton_append, ← h8] at hshape
  simp only [Bool.false_eq_true, if_false] at h
  split at h
  · rename_i heq
    obtain rfl := hunit (by decide) heq
    split at h <;> cases h
    rename_i hhead
    exact hpair (by decide) (by decide) rfl (by decide) hhead
  split at h
  · rename_i heq
    obtain rfl := hunit (by decide) heq
    split at h
    · rename_i hhead
      cases h
      exact hpair (by decide) (by decide) rfl (by decide) hhead
    rename_i hhead
    cases h
    refine ⟨s, (.lt, "<"), rfl, sameToken_literal (by simp) rfl start, ?_, by decide⟩
    rw [h8]
    exact .lt (hbreaks fun he => hhead (decide_eq_true he))
  split at h
  · rename_i heq
    obtain rfl := hunit (by decide) heq
    split at h
    · rename_i hhead
      cases h
      exact hpair (by decide) (by decide) rfl (by decide) hhead
    rename_i hhead
    cases h
    refine ⟨s, (.gt, ">"), rfl, sameToken_literal (by simp) rfl start, ?_, by decide⟩
    rw [h8]
    exact .gt (hbreaks fun he => hhead (decide_eq_true he))
  split at h
  · rename_i heq
    obtain rfl := hunit (by decide) heq
    split at h
    · cases h
    rename_i hstring
    cases h
    obtain ⟨t, s', rfl, hs', rfl, rfl⟩ := lexString_text hstring
    have htext' : SameText ([] ++ utf16.text t) (String.ofList (utf8.text t)) :=
      ⟨String.ofList t, by rw [js, String.toList_ofList]; rfl, by rw [goString, String.toList_ofList]⟩
    refine ⟨s', (.string, String.ofList (utf8.text t)), rfl, ⟨rfl, htext', fun hk => absurd rfl hk⟩, ?_, by simp⟩
    have hshape : Domain.Shape _ .string (String.ofList (utf8.text t)) (utf8.text s') :=
      .string (breaks_text (by decide) hs')
    rw [h8, utf8.text_append, utf8.text_cons_ascii (by decide), text_escapeQuote]
    simpa [Domain.quoted, utf8] using hshape
  rw [← text16_cons hc] at h
  split at h
  · rename_i hdigit
    obtain ⟨htake, hdrop, hsplit, hb⟩ := scan_text isNumberPart_decides numberPart_lt (c :: s)
    rw [htake, hdrop] at h
    have hd : Domain.isDigit c = true := by
      have hall : ∀ {c : Char}, c.toNat < 128 → isDigit (unit c) = Domain.isDigit c :=
        ascii_forall (P := fun c => isDigit (unit c) = Domain.isDigit c) (by decide)
      rw [← hall hc, hdigit]
    have hp : Domain.isNumberPart c = true := by rw [Domain.isNumberPart, hd, Bool.true_or]
    split at h <;> cases h
    have hw : ∀ d ∈ (c :: s).takeWhile Domain.isNumberPart, d.toNat < 128 := fun d hd' =>
      numberPart_lt (all_eq_true.mp all_takeWhile d hd')
    refine ⟨_, (.number, String.ofList ((c :: s).takeWhile Domain.isNumberPart)), rfl,
      sameToken_ascii hw rfl start, ?_, by simp⟩
    rw [hsplit, takeWhile_cons_of_pos hp]
    exact .number hd all_takeWhile hb
  split at h
  · rename_i hstart
    obtain ⟨htake, hdrop, hsplit, hb⟩ := scan_text isIdentPart_decides identPart_lt (c :: s)
    have hw : ∀ d ∈ (c :: s).takeWhile Domain.isIdentPart, d.toNat < 128 := fun d hd' =>
      identPart_lt (all_eq_true.mp all_takeWhile d hd')
    rw [htake, hdrop, asciiText_toLowerCase hw] at h
    have hi : Domain.isIdentStart c = true := by
      have hall : ∀ {c : Char}, c.toNat < 128 → isIdentStart (unit c) = Domain.isIdentStart c :=
        ascii_forall (P := fun c => isIdentStart (unit c) = Domain.isIdentStart c) (by decide)
      rw [← hall hc, hstart]
    have hp : Domain.isIdentPart c = true := by rw [Domain.isIdentPart, hi, Bool.true_or]
    cases h
    refine ⟨_, (Domain.wordKind ((c :: s).takeWhile Domain.isIdentPart),
      String.ofList ((c :: s).takeWhile Domain.isIdentPart)), rfl,
      sameToken_ascii hw (keywords_engine _) start, ?_, Domain.wordKind_ne_eof _⟩
    rw [hsplit, takeWhile_cons_of_pos hp]
    exact .word hi all_takeWhile hb
  · cases h

/-! ## The whole text -/

theorem spells_spaces {ls : List Domain.Lexeme}
    (h : Domain.Spells (utf8.text (s.dropWhile asciiSpace)) ls) : Domain.Spells (utf8.text s) ls := by
  induction s with
  | nil => exact h
  | cons c s ih =>
    by_cases hc : asciiSpace c = true
    · rw [dropWhile_cons_of_pos hc] at h
      obtain ⟨hspace, hlt⟩ := Bool.and_eq_true_iff.mp hc
      rw [utf8.text_cons_ascii (of_decide_eq_true hlt)]
      exact .space hspace (ih h)
    · rwa [dropWhile_cons_of_neg hc] at h

/-- What the shell's lexer reads is a spelling of the engine's tokens. -/
theorem tokenizeFrom_spells {fuel : Nat} {toks : List Token}
    (h : tokenizeFrom false fuel pos (utf16.text s) = .ok toks) :
    ∃ ls, Domain.Spells (utf8.text s) ls ∧ List.Forall₂ SameToken toks (ls ++ [(.eof, "")]) := by
  induction fuel generalizing pos s toks with
  | zero => cases h
  | succ fuel ih =>
    rw [tokenizeFrom, (isSpace_decides.split s).2] at h
    cases hrest : s.dropWhile asciiSpace with
    | nil =>
      rw [hrest] at h
      cases h
      exact ⟨[], spells_spaces (hrest ▸ .nil), .cons (sameToken_ascii (w := []) nofun rfl _) .nil⟩
    | cons c s' =>
      rw [hrest] at h
      split at h
      · cases h
      rename_i tok pos' rest hnext
      obtain ⟨s'', l, rfl, htok, hshape, hne⟩ := nextAt_shape hnext
      have hkind : tok.kind ≠ .eof := by
        intro heof
        have hl := htok.kind
        rw [heof] at hl
        exact hne (Option.some.inj hl).symm
      rw [if_neg hkind] at h
      split at h
      · cases h
      rename_i toks' htoks
      cases h
      obtain ⟨ls, hspells, hrel⟩ := ih htoks
      exact ⟨l :: ls, spells_spaces (hrest ▸ .token hshape.scans hne hspells), .cons htok hrel⟩

/-- **A text that the shell can read is spelled by the same lexemes for the engine.** -/
theorem tokenize_spells {src : String} {toks : List Token} (h : tokenize (js src) false = .ok toks) :
    ∃ ls, Domain.Spells (goString src).toList ls ∧ List.Forall₂ SameToken toks (ls ++ [(.eof, "")]) := by
  rw [goString, String.toList_ofList]
  exact tokenizeFrom_spells h

/-! ### Every round consumes a code unit -/

theorem lexString_length {value src : JsString}
    (h : lexString value pos src = some (v, pos', rest)) : rest.length < src.length := by
  fun_induction lexString value pos src with
  | case1 => cases h
  | case2 => cases h; simp
  | case3 _ _ _ ih | case5 _ _ _ _ _ ih =>
    have hlt := ih h
    simp only [length_cons]
    omega
  | case4 => cases h; simp

/-- A token takes at least one code unit. -/
theorem nextAt_length {arithmetic : Bool} {start : Nat} {c : UInt16} {cs : JsString} {tok : Token}
    (h : nextAt arithmetic start (c :: cs) = .ok (tok, pos', rest)) : rest.length < (c :: cs).length := by
  have hdrop : ∀ {q : UInt16 → Bool}, q c = true → ((c :: cs).dropWhile q).length < (c :: cs).length := by
    intro q hq
    rw [dropWhile_cons_of_pos hq]
    exact Nat.lt_succ_of_le (length_dropWhile_le q cs)
  have htail : cs.tail.length < (c :: cs).length := by
    rw [length_tail, length_cons]
    omega
  rw [nextAt.eq_def] at h
  dsimp only at h
  split at h
  · cases h
    exact Nat.lt_succ_self _
  split at h
  · cases h
    exact Nat.lt_succ_self _
  iterate 3
    split at h
    · split at h <;> cases h
      all_goals first | exact htail | exact Nat.lt_succ_self _
  split at h
  · split at h
    · cases h
    rename_i hstring
    cases h
    exact Nat.lt_succ_of_lt (lexString_length hstring)
  split at h
  · rename_i hdigit
    split at h <;> cases h
    exact hdrop (by rw [isNumberPart, hdigit, Bool.true_or])
  split at h <;> cases h
  rename_i hstart
  exact hdrop (by rw [isIdentPart, hstart, Bool.true_or])

theorem nextAt_ne_outOfFuel (arithmetic : Bool) (start : Nat) (src : JsString) :
    nextAt arithmetic start src ≠ .error .outOfFuel := by
  intro h
  rw [nextAt.eq_def] at h
  cases src with
  | nil => cases h
  | cons c cs =>
    dsimp only at h
    split at h
    · cases h
    split at h
    · cases h
    -- the operators, the literals and the words
    iterate 5
      split at h
      · split at h <;> cases h
    split at h <;> cases h

theorem tokenizeFrom_ne_outOfFuel {arithmetic : Bool} {fuel : Nat} {src : JsString} (hfuel : src.length < fuel) :
    tokenizeFrom arithmetic fuel pos src ≠ .error .outOfFuel := by
  induction fuel generalizing pos src with
  | zero => exact absurd hfuel (Nat.not_lt_zero _)
  | succ fuel ih =>
    rw [tokenizeFrom]
    split
    · rename_i e hnext
      intro heq
      cases heq
      exact nextAt_ne_outOfFuel _ _ _ hnext
    rename_i tok pos' rest hnext
    split
    · nofun
    rename_i hkind
    have hlt : rest.length < fuel := by
      have hle := length_dropWhile_le isSpace src
      cases hsrc : src.dropWhile isSpace with
      | nil =>
        rw [hsrc] at hnext
        cases hnext
        exact absurd rfl hkind
      | cons c cs =>
        rw [hsrc] at hnext hle
        have hshort := nextAt_length hnext
        omega
    split
    · rename_i e hrest
      intro heq
      cases heq
      exact ih hlt hrest
    · nofun

theorem tokenize_ne_outOfFuel (src : JsString) (arithmetic : Bool) : tokenize src arithmetic ≠ .error .outOfFuel :=
  tokenizeFrom_ne_outOfFuel (Nat.lt_succ_self _)

end GoErp.Shell
