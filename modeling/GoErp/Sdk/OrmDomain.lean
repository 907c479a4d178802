import GoErp.Domain.Template

/-!
# `Sdk.OrmDomain` — a domain expression built from a template

`sdk/go/orm/domain.go`: `Domain` rewrites the text of a template, byte by byte, and puts the literal of the next
argument in place of each `?`. It does not know the grammar: `wellPlaced` says that each place is outside the string
literals and has a delimiter or an end of the text on both sides.

The engine's lexer reads the result in step with the template (`spelt_template`), and with `parseTokens_fills` the
tree is the template's with its places filled.
-/

namespace GoErp.Sdk

open Lib Domain List

/-- What the standard library prints for the values that `Domain` does not print itself. -/
structure Formats where
  Time : Type
  Float : Type
  Other : Type
  /-- `x.Format(time.RFC3339Nano)` -/
  rfc3339Nano : Time → String
  /-- `strconv.FormatFloat(x, 'f', -1, …)` -/
  formatFloat : Float → String
  /-- `fmt.Sprint(v)` -/
  sprint : Other → String

/-- An argument of `Domain`, by the branch of `domainLiteral` that its type takes. -/
inductive DomainArg (F : Formats) where
  | nil
  | string (s : String)
  | time (t : F.Time)
  | bool (b : Bool)
  /-- any integer type, also a defined one over `int32` or `int64` -/
  | int (i : Int)
  | float (x : F.Float)
  | other (v : F.Other)

variable {F : Formats}

def quoteDomainString (s : String) : String := String.ofList (quoted s)

def domainLiteral : DomainArg F → String
  | .nil => "null"
  | .string s => quoteDomainString s
  | .time t => quoteDomainString (F.rfc3339Nano t)
  | .bool true => "true"
  | .bool false => "false"
  | .int i => toString i
  | .float x => F.formatFloat x
  | .other v => quoteDomainString (F.sprint v)

/-- The loop over the bytes of the template; a `?` beyond the arguments stays. -/
def domainFrom : List Char → List (DomainArg F) → List Char
  | [], _ => []
  | c :: cs, args =>
    match args with
    | a :: as => if c = '?' then (domainLiteral a).toList ++ domainFrom cs as else c :: domainFrom cs (a :: as)
    | [] => c :: domainFrom cs []

def Domain (template : String) (args : List (DomainArg F)) : String := String.ofList (domainFrom template.toList args)

/-! ## What is asked of the template and the arguments -/

/-- White space, a parenthesis, a comma or a character of an operator. -/
def delimits (c : Char) : Bool := isSpace c || ['(', ')', ',', '=', '!', '<', '>'].contains c

/-- Every `?` stands outside string literals, between delimiters or ends; `before` is the character read last. -/
def wellPlaced (inString : Bool) (before : Option Char) : List Char → Bool
  | [] => true
  | c :: cs =>
    if c = '?' then !inString && before.all delimits && cs.head?.all delimits && wellPlaced inString (some c) cs
    else wellPlaced (if c = '\'' then !inString else inString) (some c) cs

/-- The arguments `Domain` promises to keep apart from the expression. -/
def DomainArg.Plain : DomainArg F → Prop
  | .int i => 0 ≤ i
  | .float _ => False
  | .other _ => False
  | _ => True

/-- The literal an argument stands for. -/
def DomainArg.value : DomainArg F → LitValue
  | .nil => .null
  | .string s => .string s
  | .time t => .string (F.rfc3339Nano t)
  | .bool b => .bool b
  | .int i => .number (toString i)
  | .float x => .number (F.formatFloat x)
  | .other v => .string (F.sprint v)

/-! ## The text between two places -/

variable {w : List Char}

theorem domainFrom_append (hw : '?' ∉ w) (rest : List Char) (args : List (DomainArg F)) :
    domainFrom (w ++ rest) args = w ++ domainFrom rest args := by
  induction w with
  | nil => rfl
  | cons c w ih =>
    have hc : c ≠ '?' := fun he => hw (he ▸ mem_cons_self)
    have hrest := ih fun hm => hw (mem_cons_of_mem c hm)
    cases args with
    | nil => rw [cons_append, domainFrom, hrest, cons_append]
    | cons a as => rw [cons_append, domainFrom, if_neg hc, hrest, cons_append]

variable {rest : List Char}

/-- What follows a token is as in the template, unless a place follows. -/
theorem breaks_domainFrom {p : Char → Bool} (h : Breaks p rest) (hne : rest.head? ≠ some '?')
    (args : List (DomainArg F)) : Breaks p (domainFrom rest args) := by
  cases rest with
  | nil => exact breaks_nil p
  | cons c cs =>
    have hc : c ≠ '?' := fun he => hne (by rw [he]; rfl)
    have hp : p c = false := h c rfl
    cases args with
    | nil => exact breaks_cons hp
    | cons a as =>
      rw [domainFrom, if_neg hc]
      exact breaks_cons hp

/-- The character read last after `w`. -/
def lastRead (before : Option Char) : List Char → Option Char
  | [] => before
  | c :: cs => lastRead (some c) cs

theorem lastRead_of_all {p : Char → Bool} (hw : w.all p = true) {d : Char} (hd : p d = true) :
    ∃ e, lastRead (some d) w = some e ∧ p e = true := by
  induction w generalizing d with
  | nil => exact ⟨d, rfl, hd⟩
  | cons c w ih =>
    rw [all_cons, Bool.and_eq_true] at hw
    exact ih hw.2 hw.1

variable {b : Option Char}

theorem wellPlaced_append (hp : '?' ∉ w) (hq : '\'' ∉ w) :
    wellPlaced false b (w ++ rest) = wellPlaced false (lastRead b w) rest := by
  induction w generalizing b with
  | nil => rfl
  | cons c w ih =>
    have hc : c ≠ '?' := fun he => hp (he ▸ mem_cons_self)
    have hcq : c ≠ '\'' := fun he => hq (he ▸ mem_cons_self)
    rw [cons_append, wellPlaced, if_neg hc, if_neg hcq]
    exact ih (fun hm => hp (mem_cons_of_mem c hm)) (fun hm => hq (mem_cons_of_mem c hm))

variable {cs : List Char}

theorem wellPlaced_place {s : Bool} (h : wellPlaced s b ('?' :: cs) = true) :
    s = false ∧ b.all delimits = true ∧ cs.head?.all delimits = true ∧ wellPlaced s (some '?') cs = true := by
  rw [wellPlaced, if_pos rfl] at h
  simpa [and_assoc] using h

/-- No place follows a character that does not delimit. -/
theorem head_ne_place {b : Char} (hb : delimits b = false)
    (h : wellPlaced false (some b) rest = true) : rest.head? ≠ some '?' := by
  cases rest with
  | nil => simp
  | cons c cs =>
    intro hc
    cases hc
    have hdel := (wellPlaced_place h).2.1
    rw [Option.all_some, hb] at hdel
    cases hdel

theorem not_isNumeral_place : ¬ IsNumeral "?" := by
  rintro ⟨c, cs, hc, hd, -⟩
  have hq : "?".toList = ['?'] := by decide
  rw [hq] at hc
  cases hc
  cases hd

variable {c : Char}

theorem nextTemplateAt_of_ne (hc : c ≠ '?') (pos : Nat) (cs : List Char) :
    nextTemplateAt pos (c :: cs) = nextAt pos (c :: cs) := by
  rw [nextTemplateAt]
  exact fun cs' he => hc (List.cons.inj he).1

theorem delimits_of_isIdentPart (h : isIdentPart c = true) : delimits c = false := by
  cases hd : delimits c with
  | false => rfl
  | true =>
    rw [delimits, Bool.or_eq_true] at hd
    rcases hd with hs | hm
    · rw [isIdentPart_of_isSpace hs] at h
      cases h
    · simp only [contains_eq_mem, mem_cons, not_mem_nil, or_false, decide_eq_true_eq] at hm
      rcases hm with rfl | rfl | rfl | rfl | rfl | rfl | rfl <;> exact absurd h (by decide)

theorem delimits_of_isNumberPart (h : isNumberPart c = true) : delimits c = false := by
  rw [isNumberPart, Bool.or_eq_true] at h
  rcases h with hd | hdot
  · exact delimits_of_isIdentPart (by simp [isIdentPart, hd])
  rw [beq_iff_eq] at hdot
  subst hdot
  decide

/-- A string literal of the template holds no place and ends outside. -/
theorem wellPlaced_escapeQuote {s : List Char} (h : wellPlaced true b (Sql.escapeQuote '\'' s ++ '\'' :: rest) = true) :
    '?' ∉ s ∧ wellPlaced false (some '\'') rest = true := by
  induction s generalizing b with
  | nil => exact ⟨not_mem_nil, by simpa [Sql.escapeQuote, wellPlaced] using h⟩
  | cons c s ih =>
    by_cases hq : c = '\''
    · subst hq
      obtain ⟨hs, hrest⟩ := ih (b := some '\'') (by simpa [Sql.escapeQuote, wellPlaced] using h)
      exact ⟨by simp [hs], hrest⟩
    have hesc : Sql.escapeQuote '\'' (c :: s) = c :: Sql.escapeQuote '\'' s := by simp [Sql.escapeQuote, hq]
    rw [hesc, cons_append] at h
    have hc : c ≠ '?' := by
      rintro rfl
      cases (wellPlaced_place h).1
    rw [wellPlaced, if_neg hc, if_neg hq] at h
    obtain ⟨hs, hrest⟩ := ih h
    exact ⟨by simp [hs, Ne.symm hc], hrest⟩

/-! ## One literal -/

variable {a : DomainArg F}

/-- The literal is one token wherever a delimiter or the end follows it. -/
theorem shape_domainLiteral (ha : a.Plain) (hi : Breaks isIdentPart rest)
    (hn : Breaks isNumberPart rest) (hq : Breaks (· == '\'') rest) :
    ∃ kind text, Shape ((domainLiteral a).toList ++ rest) kind text rest ∧
      ∀ t : Token, t.kind = kind → t.text = text → t.Denotes a.value := by
  have str : ∀ s, ∃ kind text, Shape ((quoteDomainString s).toList ++ rest) kind text rest ∧
      ∀ t : Token, t.kind = kind → t.text = text → t.Denotes (.string s) := by
    intro s
    rw [quoteDomainString, String.toList_ofList]
    exact ⟨.string, s, .string hq, fun t hk ht => ⟨hk, ht⟩⟩
  have kw : ∀ {s : String} {c : Char} {w : List Char} {v : LitValue}, s.toList = c :: w → isIdentStart c = true →
      w.all isIdentPart = true → (∀ t : Token, t.kind = wordKind (c :: w) → t.Denotes v) →
      ∃ kind text, Shape (s.toList ++ rest) kind text rest ∧
        ∀ t : Token, t.kind = kind → t.text = text → t.Denotes v := by
    intro s c w v hs hc hw hden
    rw [hs]
    exact ⟨_, _, .word hc hw hi, fun t hk _ => hden t hk⟩
  cases a with
  | nil =>
    exact kw (show "null".toList = ['n', 'u', 'l', 'l'] by decide) (by decide) (by decide)
      fun t ht => ht.trans (by decide)
  | string s => exact str s
  | time x => exact str (F.rfc3339Nano x)
  | bool b =>
    cases b with
    | true =>
      exact kw (show "true".toList = ['t', 'r', 'u', 'e'] by decide) (by decide) (by decide)
        fun t ht => ht.trans (by decide)
    | false =>
      exact kw (show "false".toList = ['f', 'a', 'l', 's', 'e'] by decide) (by decide) (by decide)
        fun t ht => ht.trans (by decide)
  | int i =>
    obtain ⟨n, rfl⟩ := Int.eq_ofNat_of_zero_le (show 0 ≤ i from ha)
    have htext : (domainLiteral (.int n : DomainArg F)).toList = Nat.toDigits 10 n := Nat.toList_repr
    have hdigit : ∀ c ∈ Nat.toDigits 10 n, isDigit c = true := by
      intro c hc
      have := Nat.isDigit_of_mem_toDigits (by omega) (by omega) hc
      simpa [Char.isDigit, isDigit, Char.le_def] using this
    rw [htext]
    cases hds : Nat.toDigits 10 n with
    | nil => exact absurd hds Nat.toDigits_ne_nil
    | cons d ds =>
      rw [hds] at hdigit htext
      have hparts : ds.all isNumberPart = true := by
        rw [all_eq_true]
        intro c hc
        rw [isNumberPart, hdigit c (mem_cons_of_mem d hc), Bool.true_or]
      refine ⟨_, _, .number (hdigit d mem_cons_self) hparts hn, fun t hk ht => ⟨hk, ht.trans ?_⟩⟩
      rw [← htext]
      exact String.ofList_toList
  | float x => exact absurd ha (by simp [DomainArg.Plain])
  | other v => exact absurd ha (by simp [DomainArg.Plain])

theorem domainLiteral_head (ha : a.Plain) : ∃ c cs, (domainLiteral a).toList = c :: cs ∧ c ≠ '=' := by
  obtain ⟨kind, text, hshape, hden⟩ :=
    shape_domainLiteral ha (breaks_nil isIdentPart) (breaks_nil isNumberPart) (breaks_nil (· == '\''))
  have hlit : kind.isLiteral = true := (hden ⟨kind, text, 0⟩ rfl rfl).isLiteral
  rw [append_nil] at hshape
  generalize (domainLiteral a).toList = cs at hshape ⊢
  cases hshape with
  | symbol hmem =>
    simp only [symbols, mem_cons, not_mem_nil, or_false, Prod.mk.injEq] at hmem
    rcases hmem with h | h | h | h | h | h | h | h <;> obtain ⟨rfl, rfl⟩ := h <;> cases hlit
  | lt => cases hlit
  | gt => cases hlit
  | number hc _ _ | word hc _ _ => exact ⟨_, _, rfl, fun he => absurd (he ▸ hc) (by decide)⟩
  | string _ => exact ⟨_, _, rfl, by decide⟩

variable {args : List (DomainArg F)}

/-- No literal starts with the second half of an operator. -/
theorem breaks_eq_domainFrom (h : Breaks (· == '=') rest)
    (hargs : ∀ a ∈ args, a.Plain) : Breaks (· == '=') (domainFrom rest args) := by
  cases rest with
  | nil => exact breaks_nil _
  | cons c cs =>
    by_cases hc : c = '?'
    · subst hc
      cases args with
      | nil => exact breaks_cons rfl
      | cons a as =>
        obtain ⟨d, ds, hds, hd⟩ := domainLiteral_head (hargs a mem_cons_self)
        rw [domainFrom, if_pos rfl, hds, cons_append]
        exact breaks_cons (by simpa using hd)
    · exact breaks_domainFrom h (by simpa using hc) args

/-! ## The lexer in step with the template -/

/-- A token of the template is a token of the text, and the rest of the template is well placed. -/
theorem shape_step {kind : TokenKind} {text : String} (h : Shape cs kind text rest) (hwp : wellPlaced false b cs = true)
    (hargs : ∀ a ∈ args, a.Plain) :
    Shape (domainFrom cs args) kind text (domainFrom rest args) ∧ cs.count '?' = rest.count '?' ∧
      ∃ b', wellPlaced false b' rest = true := by
  -- the text of the token stays, and so does what ends it
  have keep : ∀ {w : List Char}, '?' ∉ w → '\'' ∉ w → wellPlaced false b (w ++ rest) = true →
      (Shape (w ++ domainFrom rest args) kind text (domainFrom rest args)) →
      Shape (domainFrom (w ++ rest) args) kind text (domainFrom rest args) ∧
        (w ++ rest).count '?' = rest.count '?' ∧ ∃ b', wellPlaced false b' rest = true := by
    intro w hp hq hplaced hshape
    rw [domainFrom_append hp, count_append, count_eq_zero.mpr hp, Nat.zero_add]
    exact ⟨hshape, rfl, _, (wellPlaced_append hp hq) ▸ hplaced⟩
  -- after a word no place can follow
  have after : ∀ {c : Char} {w : List Char} {p : Char → Bool},
      (∀ d, p d = true → delimits d = false ∧ d ≠ '?' ∧ d ≠ '\'') →
      p c = true → w.all p = true → wellPlaced false b (c :: w ++ rest) = true → Breaks p rest →
      '?' ∉ c :: w ∧ '\'' ∉ c :: w ∧ Breaks p (domainFrom rest args) := by
    intro c w p hp hc hw hplaced hb
    have hall : ∀ d ∈ c :: w, p d = true := by
      intro d hd
      rcases mem_cons.mp hd with rfl | hd
      · exact hc
      · exact all_eq_true.mp hw d hd
    have hq : '?' ∉ c :: w := fun hm => (hp _ (hall _ hm)).2.1 rfl
    have hqq : '\'' ∉ c :: w := fun hm => (hp _ (hall _ hm)).2.2 rfl
    obtain ⟨e, he, hpe⟩ := lastRead_of_all hw hc
    rw [wellPlaced_append hq hqq, lastRead, he] at hplaced
    exact ⟨hq, hqq, breaks_domainFrom hb (head_ne_place (hp e hpe).1 hplaced) args⟩
  cases h with
  | @symbol w kind rest hmem =>
    refine keep ?_ ?_ hwp (.symbol hmem) <;>
      (simp only [symbols, mem_cons, not_mem_nil, or_false, Prod.mk.injEq] at hmem
       rcases hmem with h | h | h | h | h | h | h | h <;> obtain ⟨rfl, rfl⟩ := h <;> decide)
  | lt hb => exact keep (w := ['<']) (by decide) (by decide) hwp (.lt (breaks_eq_domainFrom hb hargs))
  | gt hb => exact keep (w := ['>']) (by decide) (by decide) hwp (.gt (breaks_eq_domainFrom hb hargs))
  | @number c w rest hc hw hb =>
    have hp : ∀ d, isNumberPart d = true → delimits d = false ∧ d ≠ '?' ∧ d ≠ '\'' := by
      intro d hd
      refine ⟨delimits_of_isNumberPart hd, ?_, ?_⟩ <;> rintro rfl <;> cases hd
    obtain ⟨hq, hqq, hb'⟩ := after hp (by simp [isNumberPart, hc]) hw hwp hb
    exact keep hq hqq hwp (.number hc hw hb')
  | @word c w rest hc hw hb =>
    have hp : ∀ d, isIdentPart d = true → delimits d = false ∧ d ≠ '?' ∧ d ≠ '\'' := by
      intro d hd
      refine ⟨delimits_of_isIdentPart hd, ?_, ?_⟩ <;> rintro rfl <;> cases hd
    obtain ⟨hq, hqq, hb'⟩ := after hp (by simp [isIdentPart, hc]) hw hwp hb
    exact keep hq hqq hwp (.word hc hw hb')
  | string hb =>
    rw [quoted, cons_append, append_assoc, singleton_append, wellPlaced, if_neg (by decide)] at hwp
    obtain ⟨hs, hrest⟩ := wellPlaced_escapeQuote hwp
    have hq : '?' ∉ quoted text := by
      simp only [quoted, Sql.escapeQuote, mem_cons, mem_append, mem_flatMap, not_or, not_mem_nil]
      refine ⟨by decide, ?_, by decide, not_false⟩
      rintro ⟨c, hc, hmem⟩
      split at hmem
      · simp at hmem
      · rw [mem_singleton] at hmem
        exact hs (hmem ▸ hc)
    rw [domainFrom_append hq, count_append, count_eq_zero.mpr hq, Nat.zero_add]
    exact ⟨.string (breaks_domainFrom hb (head_ne_place (by decide) hrest) args), rfl, _, hrest⟩

/-- The text for `cs` spells its tokens, with a literal for each place. -/
def Spelt (cs : List Char) (args : List (DomainArg F)) (toks : List Token) : Prop :=
  ∃ ls, Spells (domainFrom cs args) ls ∧
    ∀ toks', toks'.map Token.lexeme = ls ++ [(.eof, "")] → Fills (args.map DomainArg.value) toks toks'

theorem space_ne (h : isSpace c = true) : c ≠ '?' ∧ c ≠ '\'' := by
  constructor <;> rintro rfl <;> cases h

variable {toks : List Token}

theorem Spelt.spaces {sp : List Char}
    (hsp : ∀ c ∈ sp, isSpace c = true) (h : Spelt cs args toks) : Spelt (sp ++ cs) args toks := by
  obtain ⟨ls, hls, hfills⟩ := h
  refine ⟨ls, ?_, hfills⟩
  rw [domainFrom_append fun hm => (space_ne (hsp _ hm)).1 rfl]
  induction sp with
  | nil => exact hls
  | cons c sp ih => exact .space (hsp c mem_cons_self) (ih fun d hd => hsp d (mem_cons_of_mem c hd))

theorem Spelt.token {tok : Token} (hshape : Shape (domainFrom cs args) tok.kind tok.text (domainFrom rest args))
    (hk : tok.kind ≠ .eof) (hp : ¬ tok.IsPlace) (h : Spelt rest args toks) : Spelt cs args (tok :: toks) := by
  obtain ⟨ls, hls, hfills⟩ := h
  refine ⟨(tok.kind, tok.text) :: ls, .token hshape.scans hk hls, fun toks' htoks' => ?_⟩
  obtain ⟨t, ts, rfl, ht, hts⟩ := map_eq_cons_iff.mp htoks'
  exact .keep hp (congrArg Prod.fst ht) (congrArg Prod.snd ht) (hfills ts hts)

/-- A place is one literal, which the delimiter after it ends. -/
theorem Spelt.place {tok : Token} (ha : a.Plain) (hp : tok.IsPlace) (hdel : rest.head?.all delimits = true)
    (h : Spelt rest args toks) : Spelt ('?' :: rest) (a :: args) (tok :: toks) := by
  obtain ⟨ls, hls, hfills⟩ := h
  have hne : rest.head? ≠ some '?' := by
    intro he
    rw [he] at hdel
    cases hdel
  have hb : ∀ {p : Char → Bool}, (∀ d, p d = true → delimits d = false) → Breaks p (domainFrom rest args) := by
    intro p hpd
    refine breaks_domainFrom (fun d hd => ?_) hne args
    rw [hd, Option.all_some] at hdel
    cases hd' : p d with
    | false => rfl
    | true =>
      rw [hpd d hd'] at hdel
      cases hdel
  obtain ⟨kind, text, hshape, hden⟩ := shape_domainLiteral ha (hb fun d => delimits_of_isIdentPart)
    (hb fun d => delimits_of_isNumberPart) (hb fun d hd => by rw [beq_iff_eq.mp hd]; decide)
  have hlit : kind.isLiteral = true := (hden ⟨kind, text, 0⟩ rfl rfl).isLiteral
  refine ⟨(kind, text) :: ls, ?_, fun toks' htoks' => ?_⟩
  · refine .token hshape.scans ?_ hls
    rintro rfl
    cases hlit
  · obtain ⟨t, ts, rfl, ht, hts⟩ := map_eq_cons_iff.mp htoks'
    exact .place hp (hden t (congrArg Prod.fst ht) (congrArg Prod.snd ht)) (hfills ts hts)

/-- **The text is read in step with the template.** -/
theorem spelt_template {fuel pos : Nat} (h : tokenizeTemplateFrom fuel pos cs = .ok toks)
    (hwp : wellPlaced false b cs = true) (hargs : ∀ a ∈ args, a.Plain) (hcount : args.length = cs.count '?') :
    Spelt cs args toks := by
  induction fuel generalizing pos cs toks b args with
  | zero => cases h
  | succ fuel ih =>
    rw [tokenizeTemplateFrom] at h
    -- the spaces before the token
    have hsp : ∀ c ∈ cs.takeWhile isSpace, isSpace c = true :=
      fun c hc => all_eq_true.mp all_takeWhile c hc
    have hq : '?' ∉ cs.takeWhile isSpace := fun hm => (space_ne (hsp _ hm)).1 rfl
    have hqq : '\'' ∉ cs.takeWhile isSpace := fun hm => (space_ne (hsp _ hm)).2 rfl
    rw [← takeWhile_append_dropWhile (p := isSpace) (l := cs)] at hwp hcount ⊢
    rw [wellPlaced_append hq hqq] at hwp
    rw [count_append, count_eq_zero.mpr hq, Nat.zero_add] at hcount
    refine .spaces hsp ?_
    generalize lastRead b (cs.takeWhile isSpace) = b at hwp
    generalize pos + (cs.takeWhile isSpace).length = pos at h
    generalize cs.dropWhile isSpace = ds at h hwp hcount ⊢
    split at h
    · cases h
    rename_i tok pos' rest hnext
    cases ds with
    | nil =>
      cases hnext
      cases h
      obtain rfl : args = [] := length_eq_zero_iff.mp hcount
      refine ⟨[], .nil, fun toks' htoks' => ?_⟩
      obtain ⟨t, rfl, ht⟩ := map_eq_singleton_iff.mp htoks'
      exact .eof rfl (congrArg Prod.fst ht)
    | cons c ds =>
      by_cases hc : c = '?'
      · subst hc
        cases hnext
        obtain ⟨-, -, hdel, hrest⟩ := wellPlaced_place hwp
        rw [if_neg (by simp)] at h
        split at h
        · cases h
        rename_i ts hts
        cases h
        cases args with
        | nil => simp at hcount
        | cons a as =>
          simp only [length_cons, count_cons_self, Nat.add_right_cancel_iff] at hcount
          have hplain : ∀ x ∈ as, x.Plain := fun x hx => hargs x (mem_cons_of_mem a hx)
          exact .place (hargs a mem_cons_self) ⟨rfl, rfl⟩ hdel (ih hts hrest hplain hcount)
      · rw [nextTemplateAt_of_ne hc] at hnext
        have hk : tok.kind ≠ .eof := nextAt_cons_ne_eof hnext
        have hplace : ¬ tok.IsPlace := fun hp => not_isNumeral_place (hp.2 ▸ (nextAt_ok hnext).shaped.2 hp.1)
        rw [if_neg hk] at h
        split at h
        · cases h
        rename_i ts hts
        cases h
        obtain ⟨hshape, hcount', b', hrest⟩ := shape_step (shape_of_nextAt hnext hk) hwp hargs
        exact .token hshape hk hplace (ih hts hrest hargs (hcount.trans hcount'))

/-- **`Domain` is injection safe**: the text of a template parses to the template's tree, with each place, in order,
    replaced by the literal of its argument and nothing else changed. -/
theorem Domain_parses (template : String) (args : List (DomainArg F)) {tree : Expr}
    (hparse : parseTemplate template = .ok tree) (hplaced : wellPlaced false none template.toList = true)
    (hargs : ∀ a ∈ args, a.Plain) (hcount : args.length = template.toList.count '?') :
    parse (Domain template args) = .ok (tree.fill (args.map DomainArg.value)).1 := by
  rw [parseTemplate] at hparse
  split at hparse
  · cases hparse
  rename_i toks htoks
  obtain ⟨ls, hls, hfills⟩ := spelt_template htoks hplaced hargs hcount
  have hspells : Spells (Domain template args).toList ls := by
    rw [Domain, String.toList_ofList]
    exact hls
  obtain ⟨toks', htoks', hlex⟩ := tokenize_of_spells hspells
  rw [parse_eq_parseTokens htoks']
  exact parseTokens_fills (hfills toks' hlex) hparse

/-- Times given as they are printed. -/
def printedTimes : Formats where
  Time := String
  Float := Empty
  Other := Empty
  rfc3339Nano := id
  formatFloat := Empty.elim
  sprint := Empty.elim

/-- Quotes, key words and a `?` in an argument stay inside its literal. -/
theorem Domain_parses_customer : parse (Domain "record.name=? AND record.qty IN (?, ?)"
        [.string "O'Neil' OR true OR '?", .int 3, (.nil : DomainArg printedTimes)]) =
      .ok (.binary .and (.binary .eq (.recordField "name") (.literal (.string "O'Neil' OR true OR '?")))
        (.inList (.recordField "qty") [.literal (.number "3"), .literal .null])) := by
  have hp : parseTemplate "record.name=? AND record.qty IN (?, ?)" =
      .ok (.binary .and (.binary .eq (.recordField "name") (.literal place))
        (.inList (.recordField "qty") [.literal place, .literal place])) := by decide +kernel
  refine (Domain_parses _ _ hp (by decide +kernel) ?_ (by decide +kernel)).trans (by decide +kernel)
  simp [DomainArg.Plain]

end GoErp.Sdk
