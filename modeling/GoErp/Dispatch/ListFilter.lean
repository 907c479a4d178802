import Mathlib.Data.List.Perm.Basic
import GoErp.Domain.Reading
import GoErp.Module.Manifest

/-!
# `Dispatch.ListFilter` — the filters of a list request

`dispatch_filter.go`: the parameters `filter[field]` and `filter[field][op]` of a list request become the text of one
domain expression, which the search parses again. A Go map is the list of its entries in the order of an iteration;
the clauses are sorted by key before they are joined.

`asked` is what the text is meant to say. It does if no field that is filtered on is a key word of the grammar
(`record.in` has no parse), and if a parameter given several times has a value only the first time: the others are not
looked at (`compileListFilter_faithful_iff`).
-/

namespace GoErp.Dispatch

open Lib Domain List

/-- The errors of the compilation, with their messages. -/
inductive FilterError where
  /-- `orm.field_unknown` -/
  | fieldUnknown (message : String)
  /-- `orm.domain_invalid` -/
  | domainInvalid (message : String)
  deriving DecidableEq, Repr

/-- `url.Values`: the keys of a query, each with its values in order. -/
abbrev Values := List (String × List String)

/-- `[^\[\]]` -/
def notBracket (c : Char) : Bool := c ≠ '[' && c ≠ ']'

/-- `^filter\[([^\[\]]+)\](?:\[([^\[\]]+)\])?$`: the field and the operator, empty if there is none. -/
def filterParamPattern (key : String) : Option (String × String) :=
  match key.toList with
  | 'f' :: 'i' :: 'l' :: 't' :: 'e' :: 'r' :: '[' :: cs =>
    let field := cs.takeWhile notBracket
    if field = [] then none
    else match cs.dropWhile notBracket with
      | [']'] => some (String.ofList field, "")
      | ']' :: '[' :: ds =>
        let op := ds.takeWhile notBracket
        if op = [] ∨ ds.dropWhile notBracket ≠ [']'] then none
        else some (String.ofList field, String.ofList op)
      | _ => none
  | _ => none

def filterOperators : String → Option BinOp
  | "eq" => some .eq
  | "ne" => some .ne
  | "gt" => some .gt
  | "gte" => some .ge
  | "lt" => some .lt
  | "lte" => some .le
  | "like" => some .like
  | _ => none

def escapeDomainLiteral (value : String) : String := String.ofList (quoted value)

/-- `strings.Split(value, ",")` -/
def splitComma (value : String) : List String := (value.toList.splitOn ',').map String.ofList

/-- The expression of one filter. -/
def compileClause (field op value : String) : Except FilterError String :=
  if op = "in" then
    .ok ("record." ++ field ++ " IN (" ++ ", ".intercalate ((splitComma value).map escapeDomainLiteral) ++ ")")
  else if op = "isnull" then
    if value = "true" then .ok ("record." ++ field ++ " IS NULL")
    else if value = "false" then .ok ("record." ++ field ++ " IS NOT NULL")
    else .error (.domainInvalid ("filter[" ++ field ++ "][isnull] must be true or false"))
  else match filterOperators op with
    | none => .error (.domainInvalid ("unknown filter operator " ++ op))
    | some sqlOp => .ok ("record." ++ field ++ " " ++ sqlOp.text ++ " " ++ escapeDomainLiteral value)

structure Clause where
  key : String
  expr : String
  deriving DecidableEq, Repr

/-- The round of the loop for one key; `none` where it continues without a clause. -/
def compileParam (declared : List String) (qualifiedModel key : String) (values : List String) :
    Except FilterError (Option Clause) :=
  match filterParamPattern key with
  | none => .ok none
  | some (field, op) =>
    -- a colon-namespaced field belongs to an extending module
    if ':' ∈ field.toList then .ok none
    else if field ∉ declared then
      .error (.fieldUnknown ("field " ++ field ++ " is not declared on " ++ qualifiedModel))
    else match values with
      | [] => .ok none
      | value :: _ =>
        if value = "" then .ok none
        else do
          let expr ← compileClause field (if op = "" then "eq" else op) value
          .ok (some ⟨key, expr⟩)

def compileParams (declared : List String) (qualifiedModel : String) : Values → Except FilterError (List Clause)
  | [] => .ok []
  | (key, values) :: q => do
    let clause ← compileParam declared qualifiedModel key values
    let clauses ← compileParams declared qualifiedModel q
    .ok (clause.toList ++ clauses)

/-- The clauses sorted by their key, joined with AND. -/
def compileListFilter (q : Values) (qualifiedModel : String) (declared : List String) : Except FilterError String := do
  let clauses ← compileParams declared qualifiedModel q
  if clauses = [] then .ok "true"
  else .ok (" AND ".intercalate ((clauses.insertionSort fun a b => Module.nameLe a.key b.key).map Clause.expr))

/-! ## What the text is meant to say -/

/-- A filter parameter on a field of the model. -/
structure Param where
  field : String
  op : String
  values : List String
  deriving DecidableEq, Repr

def param? (entry : String × List String) : Option Param :=
  match filterParamPattern entry.1 with
  | none => none
  | some (field, op) =>
    if ':' ∈ field.toList then none else some ⟨field, if op = "" then "eq" else op, entry.2⟩

/-- One value of a parameter, for which the tree has to have a node. -/
structure Filter where
  field : String
  op : String
  value : String
  deriving DecidableEq, Repr

/-- What a parameter asks for: its values that are not empty. -/
def Param.filters (p : Param) : List Filter := (p.values.filter fun v => v ≠ "").map fun v => ⟨p.field, p.op, v⟩

/-- The filters that were asked for. -/
def asked (q : Values) : List Filter := (q.filterMap param?).flatMap Param.filters

/-- The node of a filter; an operator or a truth value that is unknown has none. -/
def filterNode (field op value : String) : Option Expr :=
  if op = "in" then some (.inList (.recordField field) ((splitComma value).map fun s => .literal (.string s)))
  else if op = "isnull" then
    if value = "true" then some (.isNull (.recordField field) false)
    else if value = "false" then some (.isNull (.recordField field) true)
    else none
  else (filterOperators op).map fun sqlOp => .binary sqlOp (.recordField field) (.literal (.string value))

/-- The node says what the filter asks for. -/
def Filter.Node (f : Filter) (e : Expr) : Prop := filterNode f.field f.op f.value = some e

/-- The conjunction of nodes; the constant true if there is none. -/
def conj : List Expr → Expr
  | [] => .literal (.bool true)
  | e :: es => andAll e es

/-- The text is read as the conjunction of one node for each filter, in some order. -/
def Faithful (q : Values) (text : String) : Prop :=
  ∃ tree, parse text = .ok tree ∧
    ∃ filters nodes, filters.Perm (asked q) ∧ List.Forall₂ Filter.Node filters nodes ∧ tree = conj nodes

/-! ## The text of a clause -/

/-- `[A-Za-z_][A-Za-z0-9_]*` -/
def IsFieldName (field : String) : Prop :=
  ∃ c w, field.toList = c :: w ∧ isIdentStart c = true ∧ w.all isIdentPart = true

variable {field : String}

theorem IsFieldName.isIdentPart (h : IsFieldName field) : ∀ c ∈ field.toList, isIdentPart c = true := by
  obtain ⟨c, w, hfield, hc, hw⟩ := h
  intro d hd
  rw [hfield] at hd
  rcases mem_cons.mp hd with rfl | hd
  · rw [Domain.isIdentPart, hc]
    rfl
  · exact all_eq_true.mp hw d hd

/-- The end of the text or a space. -/
def Ends (rest : List Char) : Prop := rest = [] ∨ ∃ cs, rest = ' ' :: cs

variable {rest : List Char}

theorem Ends.breaks (h : Ends rest) {p : Char → Bool} (hp : p ' ' = false) : Breaks p rest := by
  rcases h with rfl | ⟨cs, rfl⟩
  · exact breaks_nil p
  · exact breaks_cons hp

/-- The text is read as these lexemes, up to a space or its end. -/
def SpelledAs (text : String) (ls : List Lexeme) : Prop :=
  ∀ rest ms, Ends rest → Spells rest ms → Spells (text.toList ++ rest) (ls ++ ms)

variable {ls : List Lexeme}

theorem spells_field (hf : IsFieldName field) (hb : Breaks isIdentPart rest) (h : Spells rest ls) :
    Spells (("record." ++ field).toList ++ rest) (fieldLexemes (wordKind field.toList) field ++ ls) := by
  obtain ⟨c, w, hfield, hc, hw⟩ := hf
  have hname : Shape (field.toList ++ rest) (wordKind field.toList) field rest := by
    have hword : Shape (c :: w ++ rest) (wordKind (c :: w)) (String.ofList (c :: w)) rest := .word hc hw hb
    rwa [← hfield, String.ofList_toList] at hword
  have hdot : Shape (".".toList ++ (field.toList ++ rest)) .dot "." (field.toList ++ rest) := .symbol (by decide)
  have hrecord : Shape ("record".toList ++ (".".toList ++ (field.toList ++ rest))) .ident "record"
      (".".toList ++ (field.toList ++ rest)) :=
    .word (c := 'r') (w := ['e', 'c', 'o', 'r', 'd']) (by decide) (by decide) (breaks_cons (by decide))
  have hspells := Spells.token hrecord.scans (by decide)
    (Spells.token hdot.scans (by decide) (Spells.token hname.scans (wordKind_ne_eof _) h))
  simpa [fieldLexemes] using hspells

theorem spells_quoted (value : String) (hb : Breaks (· == '\'') rest)
    (h : Spells rest ls) : Spells (quoted value ++ rest) ((.string, value) :: ls) :=
  .token (scans_quoted value hb) (by decide) h

/-- The token of an operator. -/
def opLexeme : BinOp → Lexeme
  | .eq => (.eq, "=")
  | .ne => (.neq, "!=")
  | .lt => (.lt, "<")
  | .gt => (.gt, ">")
  | .le => (.lte, "<=")
  | .ge => (.gte, ">=")
  | .like => (.like, "LIKE")
  | .ilike => (.ilike, "ILIKE")
  | .and => (.and, "AND")
  | .or => (.or, "OR")

/-- An operator between spaces. -/
theorem spells_operator (op : BinOp) (h : Spells rest ls) :
    Spells (' ' :: (op.text.toList ++ ' ' :: rest)) (opLexeme op :: ls) := by
  have hspace : Spells (' ' :: rest) ls := .space rfl h
  have hword : ∀ {c : Char} {w : List Char}, isIdentStart c = true → w.all isIdentPart = true →
      Shape (c :: w ++ ' ' :: rest) (wordKind (c :: w)) (String.ofList (c :: w)) (' ' :: rest) :=
    fun hc hw => .word hc hw (breaks_cons (by decide))
  refine .space rfl ?_
  cases op with
  | eq => exact .token (Shape.symbol (w := "=") (by decide)).scans (by decide) hspace
  | ne => exact .token (Shape.symbol (w := "!=") (by decide)).scans (by decide) hspace
  | lt => exact .token (Shape.lt (breaks_cons (by decide))).scans (by decide) hspace
  | gt => exact .token (Shape.gt (breaks_cons (by decide))).scans (by decide) hspace
  | le => exact .token (Shape.symbol (w := "<=") (by decide)).scans (by decide) hspace
  | ge => exact .token (Shape.symbol (w := ">=") (by decide)).scans (by decide) hspace
  | like =>
    exact .token (hword (c := 'L') (w := ['I', 'K', 'E']) (by decide) (by decide)).scans (by decide) hspace
  | ilike =>
    exact .token (hword (c := 'I') (w := ['L', 'I', 'K', 'E']) (by decide) (by decide)).scans (by decide) hspace
  | and =>
    exact .token (hword (c := 'A') (w := ['N', 'D']) (by decide) (by decide)).scans (by decide) hspace
  | or =>
    exact .token (hword (c := 'O') (w := ['R']) (by decide) (by decide)).scans (by decide) hspace

/-- A clause on `field`: the text is read as `record.field` and `tail`, and these as the node, if the field's name is
    an identifier to the lexer. -/
structure Printed (field text : String) (tail : List Lexeme) (node : Expr) : Prop where
  spelled : SpelledAs text (fieldLexemes (wordKind field.toList) field ++ tail)
  no_number : ∀ l ∈ tail, l.1 ≠ .number
  reads : ∀ inner, Reads (parseNot (parsePrimary inner)) (fieldLexemes .ident field ++ tail) node endsOperand

/-- The comparison operators of a filter. -/
theorem filterOperators_cases {op : String} {o : BinOp} (h : filterOperators op = some o) :
    comparisonOps (opLexeme o).1 = some o ∨ o = .like := by
  unfold filterOperators at h
  split at h <;> cases h <;> first | exact .inl rfl | exact .inr rfl

theorem printed_comparison (hf : IsFieldName field) {o : BinOp}
    (ho : comparisonOps (opLexeme o).1 = some o ∨ o = .like) (value : String) :
    Printed field ("record." ++ field ++ " " ++ o.text ++ " " ++ escapeDomainLiteral value)
      [opLexeme o, (.string, value)] (.binary o (.recordField field) (.literal (.string value))) where
  spelled := by
    intro rest ms hrest h
    have hvalue := spells_quoted value (hrest.breaks rfl) h
    have hop := spells_operator o hvalue
    have hfield := spells_field hf (breaks_cons rfl) hop
    simpa [escapeDomainLiteral] using hfield
  no_number := by
    intro l hl
    rcases mem_pair.mp hl with rfl | rfl
    · cases o <;> decide
    · simp
  reads := by
    intro inner
    have hfield := reads_recordField inner field
    have hvalue : Reads (parsePrimary inner) [(.string, value)] (.literal (.string value)) endsOperand :=
      (reads_string inner value).mono fun _ _ => rfl
    have hcmp : ∀ k, endsOperand k = true → comparisonOps k = none := fun k hk => (endsOperand_ops hk).1
    rcases ho with ho | rfl
    · exact Reads.not_of_comparison (hfield.binary hvalue ho rfl hcmp) (by decide)
    -- `LIKE` binds less than the comparisons
    have hleft : Reads (parseComparison (parsePrimary inner)) _ (.recordField field) fun k => decide (k = .like) :=
      Reads.binaryLevel (hfield.mono fun _ _ => rfl) fun k hk => by rw [of_decide_eq_true hk]; rfl
    have hright : Reads (parseComparison (parsePrimary inner)) _ (.literal (.string value)) endsOperand :=
      hvalue.binaryLevel hcmp
    exact Reads.not_of_like (hleft.binary hright (l := (.like, "LIKE")) rfl rfl fun k hk => (endsOperand_ops hk).2.1)
      (by decide)

theorem printed_isNull (hf : IsFieldName field) (n : Bool) :
    Printed field ("record." ++ field ++ (if n then " IS NOT NULL" else " IS NULL")) (isNullLexemes n)
      (.isNull (.recordField field) n) where
  spelled := by
    intro rest ms hrest h
    have hnull : Spells ("NULL".toList ++ rest) ((.null, "NULL") :: ms) :=
      .token (Shape.word (c := 'N') (w := ['U', 'L', 'L']) (by decide) (by decide) (hrest.breaks rfl)).scans
        (by decide) h
    have his : ∀ {cs ls}, Spells cs ls → Spells ('I' :: ['S'] ++ ' ' :: cs) ((.is, "IS") :: ls) := fun hcs =>
      .token (Shape.word (by decide) (by decide) (breaks_cons (by decide))).scans (by decide) (.space rfl hcs)
    have hnot : ∀ {cs ls}, Spells cs ls → Spells ('N' :: ['O', 'T'] ++ ' ' :: cs) ((.not, "NOT") :: ls) := fun hcs =>
      .token (Shape.word (by decide) (by decide) (breaks_cons (by decide))).scans (by decide) (.space rfl hcs)
    cases n with
    | false =>
      have hfield := spells_field hf (breaks_cons rfl) (Spells.space (c := ' ') rfl (his hnull))
      simpa [isNullLexemes] using hfield
    | true =>
      have hfield := spells_field hf (breaks_cons rfl) (Spells.space (c := ' ') rfl (his (hnot hnull)))
      simpa [isNullLexemes] using hfield
  no_number := by cases n <;> decide
  reads := by
    intro inner
    have hfield := reads_recordField inner field
    have hleft : Reads (parseLikeIlike (parsePrimary inner)) _ (.recordField field) fun k => decide (k = .is) :=
      Reads.binaryLevel (Reads.binaryLevel (hfield.mono fun _ _ => rfl)
        fun k hk => by rw [of_decide_eq_true hk]; rfl) fun k hk => by rw [of_decide_eq_true hk]; rfl
    exact Reads.not_of_isNull (hleft.isNull rfl (fun k hk => (endsOperand_ops hk).2.2.1) n) (by decide)

/-- The members of a list and the parenthesis that closes it. -/
theorem spells_members {parts : List String} (hne : parts ≠ []) {ms : List Lexeme} (h : Spells rest ms) :
    Spells ((", ".intercalate (parts.map escapeDomainLiteral)).toList ++ ')' :: rest)
      (memberLexemes (parts.map fun s => [(.string, s)]) ++ (.rparen, ")") :: ms) := by
  induction parts with
  | nil => exact absurd rfl hne
  | cons part parts ih =>
    cases parts with
    | nil =>
      have hclose : Spells (')' :: rest) ((.rparen, ")") :: ms) :=
        .token (Shape.symbol (w := ")") (by decide)).scans (by decide) h
      have hpart := spells_quoted part (breaks_cons rfl) hclose
      simpa [escapeDomainLiteral, memberLexemes] using hpart
    | cons next parts =>
      have hcomma : Spells (',' :: ' ' :: ((", ".intercalate ((next :: parts).map escapeDomainLiteral)).toList ++
          ')' :: rest)) ((.comma, ",") :: (memberLexemes ((next :: parts).map fun s => [(.string, s)]) ++
          (.rparen, ")") :: ms)) :=
        .token (Shape.symbol (w := ",") (by decide)).scans (by decide) (.space rfl (ih (by simp)))
      have hpart := spells_quoted part (breaks_cons rfl) hcomma
      simpa [escapeDomainLiteral, memberLexemes] using hpart

theorem printed_inList (hf : IsFieldName field) {parts : List String} (hne : parts ≠ []) :
    Printed field ("record." ++ field ++ " IN (" ++ ", ".intercalate (parts.map escapeDomainLiteral) ++ ")")
      (inLexemes (parts.map fun s => [(.string, s)]))
      (.inList (.recordField field) (parts.map fun s => .literal (.string s))) where
  spelled := by
    intro rest ms hrest h
    have hmembers := spells_members hne h
    have hopen : Spells ('(' :: ((", ".intercalate (parts.map escapeDomainLiteral)).toList ++ ')' :: rest))
        ((.lparen, "(") :: (memberLexemes (parts.map fun s => [(.string, s)]) ++ (.rparen, ")") :: ms)) :=
      .token (Shape.symbol (w := "(") (by decide)).scans (by decide) hmembers
    have hin : Spells ('I' :: ['N'] ++ ' ' :: '(' :: ((", ".intercalate (parts.map escapeDomainLiteral)).toList ++
        ')' :: rest)) ((.in_, "IN") :: (.lparen, "(") :: (memberLexemes (parts.map fun s => [(.string, s)]) ++
        (.rparen, ")") :: ms)) :=
      .token (Shape.word (by decide) (by decide) (breaks_cons (by decide))).scans (by decide) (.space rfl hopen)
    have hfield := spells_field hf (breaks_cons rfl) (Spells.space (c := ' ') rfl hin)
    simpa [inLexemes] using hfield
  no_number := by
    intro l hl
    simp only [inLexemes, mem_cons, mem_append, not_mem_nil, or_false] at hl
    rcases hl with rfl | rfl | hl | rfl
    · decide
    · decide
    · rcases mem_memberLexemes hl with rfl | ⟨m, hm, hlm⟩
      · decide
      obtain ⟨v, -, rfl⟩ := mem_map.mp hm
      rw [mem_singleton.mp hlm]
      simp
    · decide
  reads := by
    intro inner
    have hfield := reads_recordField inner field
    -- the members end at a comma or the parenthesis, the field at `IN`
    have hstop : ∀ k, decide (k = TokenKind.in_ ∨ k = .comma ∨ k = .rparen) = true →
        comparisonOps k = none ∧ likeOps k = none ∧ k ≠ .is := by
      intro k hk
      rcases of_decide_eq_true hk with rfl | rfl | rfl <;> exact ⟨rfl, rfl, by simp⟩
    have hleft := hfield.isNull_of_primary hstop
    have hitems : ∀ i ∈ parts.map (fun s => ([(TokenKind.string, s)], Expr.literal (.string s))),
        Reads (parseIsNull (parsePrimary inner)) i.1 i.2
          fun k => decide (k = TokenKind.in_ ∨ k = .comma ∨ k = .rparen) := by
      intro i hi
      obtain ⟨v, -, rfl⟩ := mem_map.mp hi
      exact (reads_string inner v).isNull_of_primary hstop
    have hlist := hleft.inList rfl rfl rfl (by simpa using hne) hitems fun k hk => (endsOperand_ops hk).2.2.2.1
    rw [List.map_map, List.map_map] at hlist
    exact Reads.not_of_in hlist (by decide)

theorem splitComma_ne_nil (value : String) : splitComma value ≠ [] := by
  rw [splitComma, ne_eq, map_eq_nil_iff]
  exact splitOn_ne_nil _ _

variable {text : String}

/-- A clause prints its node. -/
theorem compileClause_printed {op value : String} (hf : IsFieldName field)
    (h : compileClause field op value = .ok text) :
    ∃ tail node, filterNode field op value = some node ∧ Printed field text tail node := by
  unfold compileClause at h
  unfold filterNode
  split at h
  · rename_i hin
    cases h
    rw [if_pos hin]
    exact ⟨_, _, rfl, printed_inList hf (splitComma_ne_nil value)⟩
  rename_i hin
  rw [if_neg hin]
  split at h
  · rename_i hnull
    rw [if_pos hnull]
    split at h
    · rename_i hv
      cases h
      rw [if_pos hv]
      exact ⟨_, _, rfl, printed_isNull hf false⟩
    rename_i hv
    rw [if_neg hv]
    split at h <;> cases h
    rename_i hv'
    rw [if_pos hv']
    exact ⟨_, _, rfl, printed_isNull hf true⟩
  rename_i hnull
  rw [if_neg hnull]
  split at h
  · cases h
  rename_i o ho
  cases h
  rw [ho]
  exact ⟨_, _, rfl, printed_comparison hf (filterOperators_cases ho) value⟩

/-! ### Clauses joined by `AND` -/

/-- A text and the operand it prints. -/
structure Piece where
  text : String
  item : List Lexeme × Expr

variable {pieces : List Piece}

theorem spells_joined {piece : Piece} (h : ∀ x ∈ piece :: pieces, SpelledAs x.text x.item.1) :
    Spells (" AND ".intercalate ((piece :: pieces).map Piece.text)).toList
      (piece.item.1 ++ andLexemes (pieces.map Piece.item)) := by
  induction pieces generalizing piece with
  | nil =>
    have hpiece := h piece mem_cons_self [] [] (.inl rfl) .nil
    simpa [andLexemes] using hpiece
  | cons next pieces ih =>
    have hnext := ih fun x hx => h x (mem_cons_of_mem piece hx)
    have hand := spells_operator .and hnext
    have hpiece := h piece mem_cons_self _ _ (.inr ⟨_, rfl⟩) hand
    simpa [andLexemes, opLexeme, BinOp.text] using hpiece

/-! ## The clauses of a query -/

/-- The value that is compiled: the first, unless it is empty. -/
def Param.first (p : Param) : Option String := p.values.head?.filter fun v => decide (v ≠ "")

/-- The filters that are compiled. -/
def compiled (q : Values) : List Param := (q.filterMap param?).filter fun p => p.first.isSome

/-- The clause compiled from a parameter. -/
def ClauseOf (p : Param) (c : Clause) : Prop := ∃ v, p.first = some v ∧ compileClause p.field p.op v = .ok c.expr

variable {declared : List String} {qualifiedModel : String}

theorem compileParam_ok {key : String} {values : List String}
    {clause : Option Clause} (h : compileParam declared qualifiedModel key values = .ok clause) :
    (∀ p, param? (key, values) = some p → p.field ∈ declared) ∧
      List.Forall₂ ClauseOf (compiled [(key, values)]) clause.toList := by
  unfold compileParam at h
  cases hpat : filterParamPattern key with
  | none =>
    rw [hpat] at h
    cases h
    have hnone : param? (key, values) = none := by simp [param?, hpat]
    refine ⟨fun p hp => absurd (hnone.symm.trans hp) (by simp), ?_⟩
    simp [compiled, hnone]
  | some m =>
    obtain ⟨field, op⟩ := m
    rw [hpat] at h
    dsimp only at h
    split at h
    · rename_i hcolon
      cases h
      have hnone : param? (key, values) = none := by simp [param?, hpat, hcolon]
      refine ⟨fun p hp => absurd (hnone.symm.trans hp) (by simp), ?_⟩
      simp [compiled, hnone]
    rename_i hcolon
    have hparam : param? (key, values) = some ⟨field, if op = "" then "eq" else op, values⟩ := by
      simp [param?, hpat, hcolon]
    split at h
    · cases h
    rename_i hdecl
    rw [not_not] at hdecl
    refine ⟨fun p hp => (Option.some.inj (hparam.symm.trans hp)) ▸ hdecl, ?_⟩
    cases values with
    | nil =>
      cases h
      simp [compiled, hparam, Param.first]
    | cons value rest =>
      dsimp only at h
      split at h
      · rename_i hempty
        cases h
        subst hempty
        simp [compiled, hparam, Param.first]
      rename_i hvalue
      obtain ⟨expr, hexpr, h⟩ := bind_eq_ok.mp h
      cases h
      have hfirst : Param.first ⟨field, if op = "" then "eq" else op, value :: rest⟩ = some value := by
        simp [Param.first, hvalue]
      have hcompiled : compiled [(key, value :: rest)] =
          [⟨field, if op = "" then "eq" else op, value :: rest⟩] := by
        simp [compiled, hparam, hfirst]
      rw [hcompiled]
      exact .cons ⟨value, hfirst, hexpr⟩ .nil

theorem compiled_cons (entry : String × List String) (q : Values) :
    compiled (entry :: q) = compiled [entry] ++ compiled q := by
  rw [compiled, compiled, compiled, ← filter_append, ← filterMap_append, singleton_append]

variable {q : Values}

theorem compileParams_ok {clauses : List Clause} (h : compileParams declared qualifiedModel q = .ok clauses) :
    (∀ p ∈ q.filterMap param?, p.field ∈ declared) ∧ List.Forall₂ ClauseOf (compiled q) clauses := by
  induction q generalizing clauses with
  | nil =>
    cases h
    exact ⟨nofun, .nil⟩
  | cons entry q ih =>
    obtain ⟨clause, h1, h⟩ := bind_eq_ok.mp h
    obtain ⟨clauses', h2, h⟩ := bind_eq_ok.mp h
    cases h
    obtain ⟨hdecl1, hc1⟩ := compileParam_ok h1
    obtain ⟨hdecl2, hc2⟩ := ih h2
    refine ⟨fun p hp => ?_, ?_⟩
    · obtain ⟨x, hx, hpx⟩ := mem_filterMap.mp hp
      rcases mem_cons.mp hx with rfl | hx
      · exact hdecl1 p hpx
      · exact hdecl2 p (mem_filterMap.mpr ⟨x, hx, hpx⟩)
    · rw [compiled_cons]
      exact rel_append hc1 hc2

/-! ## The tree of the text -/

/-- The lexer reads the field's name as a key word. -/
def isKeyword (field : String) : Bool := (keywords (String.ofList (field.toList.map Char.toLower))).isSome

theorem wordKind_eq_ident_iff : wordKind field.toList = .ident ↔ isKeyword field = false := by
  unfold wordKind isKeyword
  cases hk : keywords (String.ofList (field.toList.map Char.toLower)) with
  | none => simp
  | some k => simp [(keywords_kind hk).1]

/-- The piece is the text of the parameter's first value, with its lexemes and its node. -/
structure PieceOf (p : Param) (x : Piece) : Prop where
  node : ∃ v, p.first = some v ∧ filterNode p.field p.op v = some x.item.2
  printed : ∃ tail, x.item.1 = fieldLexemes (wordKind p.field.toList) p.field ++ tail ∧
    Printed p.field x.text tail x.item.2

variable {p : Param}

theorem pieceOf_clause {c : Clause} (hp : IsFieldName p.field) (h : ClauseOf p c) :
    ∃ x : Piece, x.text = c.expr ∧ PieceOf p x := by
  obtain ⟨v, hv, hc⟩ := h
  obtain ⟨tail, node, hnode, hprinted⟩ := compileClause_printed hp hc
  exact ⟨⟨c.expr, (_, node)⟩, rfl, ⟨v, hv, hnode⟩, tail, rfl, hprinted⟩

variable {params : List Param}

theorem pieces_of_clauses {clauses : List Clause} (hnames : ∀ p ∈ params, IsFieldName p.field)
    (h : List.Forall₂ ClauseOf params clauses) :
    ∃ pieces, List.Forall₂ PieceOf params pieces ∧ pieces.map Piece.text = clauses.map Clause.expr := by
  induction h with
  | nil => exact ⟨[], .nil, rfl⟩
  | @cons p c ps cs hc _ ih =>
    obtain ⟨x, hx, hpiece⟩ := pieceOf_clause (hnames p mem_cons_self) hc
    obtain ⟨xs, hxs, hmap⟩ := ih fun r hr => hnames r (mem_cons_of_mem p hr)
    exact ⟨x :: xs, .cons hpiece hxs, by rw [map_cons, map_cons, hx, hmap]⟩

/-- The text joined from pieces. -/
def joined : List Piece → String
  | [] => "true"
  | piece :: pieces => " AND ".intercalate ((piece :: pieces).map Piece.text)

/-- A compiled text is joined from the clauses of the compiled parameters. -/
theorem compileListFilter_pieces
    (hnames : ∀ p ∈ compiled q, IsFieldName p.field) (h : compileListFilter q qualifiedModel declared = .ok text) :
    ∃ params pieces, params.Perm (compiled q) ∧ List.Forall₂ PieceOf params pieces ∧ text = joined pieces := by
  obtain ⟨clauses, hclauses, h⟩ := bind_eq_ok.mp h
  have hrel := (compileParams_ok hclauses).2
  have hsorted := perm_insertionSort (fun a b : Clause => Module.nameLe a.key b.key) clauses
  -- the parameters in the order of the sorted clauses
  obtain ⟨params, hparams, hperm⟩ := perm_comp_forall₂ hsorted hrel.flip
  obtain ⟨pieces, hpieces, hmap⟩ := pieces_of_clauses (fun p hp => hnames p (hperm.mem_iff.mp hp)) hparams.flip
  refine ⟨params, pieces, hperm, hpieces, ?_⟩
  split at h
  · rename_i hnil
    cases h
    subst hnil
    have hlen : pieces = [] := map_eq_nil_iff.mp hmap
    rw [hlen]
    rfl
  · rename_i hne
    cases h
    cases pieces with
    | nil =>
      have hsort : clauses.insertionSort (fun a b : Clause => Module.nameLe a.key b.key) = [] :=
        map_eq_nil_iff.mp hmap.symm
      rw [hsort] at hsorted
      exact absurd hsorted.symm.eq_nil hne
    | cons x xs =>
      rw [joined, hmap]

theorem field_mem_of_compileListFilter
    (h : compileListFilter q qualifiedModel declared = .ok text) : ∀ p ∈ compiled q, p.field ∈ declared := by
  obtain ⟨clauses, hclauses, -⟩ := bind_eq_ok.mp h
  intro p hp
  exact (compileParams_ok hclauses).1 p (mem_filter.mp hp).1

variable {x : Piece}

theorem PieceOf.no_number (h : PieceOf p x) : ∀ l ∈ x.item.1, l.1 ≠ .number := by
  obtain ⟨tail, htail, hprinted⟩ := h.printed
  intro l hl
  rw [htail, mem_append] at hl
  rcases hl with hl | hl
  · simp only [fieldLexemes, mem_cons, not_mem_nil, or_false] at hl
    rcases hl with rfl | rfl | rfl
    · decide
    · decide
    · exact wordKind_ne_number _
  · exact hprinted.no_number l hl

/-- A member of the second list has a partner in the first. -/
theorem exists_of_forall₂ {α β : Type} {R : α → β → Prop} {as : List α} {bs : List β} (h : List.Forall₂ R as bs)
    {b : β} (hb : b ∈ bs) : ∃ a ∈ as, R a b := by
  induction h with
  | nil => cases hb
  | @cons a b' as bs hab _ ih =>
    rcases mem_cons.mp hb with rfl | hb
    · exact ⟨a, mem_cons_self, hab⟩
    · obtain ⟨a', ha', hr⟩ := ih hb
      exact ⟨a', mem_cons_of_mem a ha', hr⟩

/-- The text parses as the tokens of its clauses do. -/
theorem parse_joined_iff {xs : List Piece}
    (h : List.Forall₂ PieceOf params (x :: xs)) {tree : Expr} : parse (joined (x :: xs)) = .ok tree ↔
      parseTokens (sourceTokens (x.item.1 ++ andLexemes (xs.map Piece.item))) = .ok tree := by
  have hspelled : ∀ y ∈ x :: xs, SpelledAs y.text y.item.1 := by
    intro y hy
    obtain ⟨p, -, hp⟩ := exists_of_forall₂ h hy
    obtain ⟨tail, htail, hprinted⟩ := hp.printed
    rw [htail]
    exact hprinted.spelled
  refine parse_eq_ok_iff (spells_joined hspelled) fun l hl => ?_
  have hitem : ∀ y ∈ x :: xs, ∀ l ∈ y.item.1, l.1 ≠ .number := by
    intro y hy
    obtain ⟨p, -, hp⟩ := exists_of_forall₂ h hy
    exact hp.no_number
  rcases mem_append.mp hl with hl | hl
  · exact hitem x mem_cons_self l hl
  obtain ⟨i, hi, hli⟩ := mem_flatMap.mp hl
  obtain ⟨y, hy, rfl⟩ := mem_map.mp hi
  rcases mem_cons.mp hli with rfl | hli
  · decide
  · exact hitem y (mem_cons_of_mem x hy) l hli

/-- The clause is read if its field's name is no key word, and not if it is one. -/
theorem PieceOf.reads (h : PieceOf p x) (inner : Parser Expr) :
    if isKeyword p.field then Fails (parseNot (parsePrimary inner)) x.item.1
    else Reads (parseNot (parsePrimary inner)) x.item.1 x.item.2 endsOperand := by
  obtain ⟨tail, htail, hprinted⟩ := h.printed
  rw [htail]
  cases hk : isKeyword p.field with
  | true =>
    refine fails_field (fun hident => ?_) p.field tail
    rw [wordKind_eq_ident_iff, hk] at hident
    cases hident
  | false =>
    rw [wordKind_eq_ident_iff.mpr hk]
    exact hprinted.reads inner

/-- If no field is a key word, the text parses to the conjunction of the nodes. -/
theorem parse_joined (h : List.Forall₂ PieceOf params pieces) (hkw : ∀ p ∈ params, isKeyword p.field = false) :
    parse (joined pieces) = .ok (conj (pieces.map fun x => x.item.2)) := by
  cases pieces with
  | nil =>
    show parse "true" = .ok (.literal (.bool true))
    decide +kernel
  | cons x xs =>
    rw [parse_joined_iff h]
    have hreads : ∀ n, ∀ i ∈ x.item :: xs.map Piece.item,
        Reads (parseNot (parsePrimary (parseOr n))) i.1 i.2 endsOperand := by
      intro n i hi
      rw [← map_cons] at hi
      obtain ⟨y, hy, rfl⟩ := mem_map.mp hi
      obtain ⟨p, hp, hpiece⟩ := exists_of_forall₂ h hy
      have hread := hpiece.reads (parseOr n)
      rwa [hkw p hp] at hread
    have hparse := parseTokens_reads hreads
    rwa [List.map_map] at hparse

/-- If the text parses, no field is a key word. -/
theorem not_isKeyword_of_parse (h : List.Forall₂ PieceOf params pieces)
    {tree : Expr} (hparse : parse (joined pieces) = .ok tree) : ∀ p ∈ params, isKeyword p.field = false := by
  cases pieces with
  | nil =>
    cases h
    nofun
  | cons x xs =>
    rw [parse_joined_iff h] at hparse
    have hall : ∀ n, ∀ i ∈ x.item :: xs.map Piece.item,
        Reads (parseNot (parsePrimary (parseOr n))) i.1 i.2 endsOperand ∨
          Fails (parseNot (parsePrimary (parseOr n))) i.1 := by
      intro n i hi
      rw [← map_cons] at hi
      obtain ⟨y, hy, rfl⟩ := mem_map.mp hi
      obtain ⟨p, -, hpiece⟩ := exists_of_forall₂ h hy
      have hread := hpiece.reads (parseOr n)
      split at hread
      · exact .inr hread
      · exact .inl hread
    obtain ⟨n, hreads⟩ := reads_of_parseTokens hall hparse
    intro p hp
    obtain ⟨y, hy, hpiece⟩ := exists_of_forall₂ h.flip hp
    have hread : Reads (parseNot (parsePrimary (parseOr n))) y.item.1 y.item.2 endsOperand :=
      hreads y.item (by rw [← map_cons]; exact mem_map_of_mem hy)
    have hpiece := PieceOf.reads hpiece (parseOr n)
    cases hk : isKeyword p.field with
    | false => rfl
    | true =>
      rw [hk] at hpiece
      exact absurd (hread ⟨.eof, "", 0⟩ [] rfl) (hpiece _ _)

/-! ## Filters that are asked for and filters that are compiled -/

/-- The number of conjuncts that are not literals. -/
def conjuncts : Expr → Nat
  | .binary .and left right => conjuncts left + conjuncts right
  | .literal _ => 0
  | _ => 1

theorem conjuncts_node {f : Filter} {e : Expr} (h : f.Node e) : conjuncts e = 1 := by
  unfold Filter.Node filterNode at h
  split at h
  · cases h
    rfl
  split at h
  · split at h
    · cases h
      rfl
    split at h <;> cases h
    rfl
  · obtain ⟨o, ho, rfl⟩ := Option.map_eq_some_iff.mp h
    unfold filterOperators at ho
    split at ho <;> cases ho <;> rfl

theorem conjuncts_andAll {left : Expr} {es : List Expr} (h : ∀ e ∈ es, conjuncts e = 1) :
    conjuncts (andAll left es) = conjuncts left + es.length := by
  induction es generalizing left with
  | nil => rfl
  | cons e es ih =>
    show conjuncts (andAll (.binary .and left e) es) = _
    rw [ih fun x hx => h x (mem_cons_of_mem e hx), conjuncts, h e mem_cons_self, length_cons]
    omega

/-- A conjunction of nodes has as many conjuncts as there are filters, so none of them can be left out. -/
theorem conjuncts_conj {filters : List Filter} {nodes : List Expr} (h : List.Forall₂ Filter.Node filters nodes) :
    conjuncts (conj nodes) = filters.length := by
  have hall : ∀ e ∈ nodes, conjuncts e = 1 := by
    intro e he
    obtain ⟨f, -, hf⟩ := exists_of_forall₂ h he
    exact conjuncts_node hf
  rw [h.length_eq]
  cases nodes with
  | nil => rfl
  | cons e es =>
    show conjuncts (andAll e es) = _
    rw [conjuncts_andAll fun x hx => hall x (mem_cons_of_mem e hx), hall e mem_cons_self, length_cons]
    omega

/-- A parameter that is compiled to what it asks for: it is on no key word, and its first value is its only one. -/
def Param.Plain (p : Param) : Prop :=
  isKeyword p.field = false ∧ p.values.head? ≠ some "" ∧ ∀ v ∈ p.values.tail, v = ""

instance (p : Param) : Decidable p.Plain := inferInstanceAs (Decidable (_ ∧ _ ∧ _))

/-- The filter of the value that is compiled. -/
def Param.firstFilter (p : Param) : Option Filter := p.first.map fun v => ⟨p.field, p.op, v⟩

theorem values_of_first {v : String} (h : p.first = some v) : ∃ rest, p.values = v :: rest ∧ v ≠ "" := by
  obtain ⟨hhead, hne⟩ : p.values.head? = some v ∧ v ≠ "" := by
    simpa [Param.first, Option.filter_eq_some_iff] using h
  obtain ⟨rest, hrest⟩ := head?_eq_some_iff.mp hhead
  exact ⟨rest, hrest, hne⟩

/-- Of a parameter at most one filter is compiled. -/
theorem length_firstFilter_le (p : Param) : p.firstFilter.toList.length ≤ p.filters.length := by
  unfold Param.firstFilter
  cases hfirst : p.first with
  | none => exact Nat.zero_le _
  | some v =>
    obtain ⟨rest, hvalues, hne⟩ := values_of_first hfirst
    simp [Param.filters, hvalues, hne]

/-- As many filters as are compiled: a parameter that asks has its only value in front. -/
theorem plain_of_length (h : p.filters.length = p.firstFilter.toList.length) (hasks : p.filters ≠ []) :
    p.values.head? ≠ some "" ∧ ∀ v ∈ p.values.tail, v = "" := by
  unfold Param.firstFilter at h
  cases hfirst : p.first with
  | none =>
    rw [hfirst] at h
    exact absurd (length_eq_zero_iff.mp h) hasks
  | some v =>
    obtain ⟨rest, hvalues, hne⟩ := values_of_first hfirst
    rw [hfirst] at h
    have hrest : rest.filter (fun v => v ≠ "") = [] := by simpa [Param.filters, hvalues, hne] using h
    rw [hvalues]
    exact ⟨by simpa using hne, fun w hw => by simpa using filter_eq_nil_iff.mp hrest w hw⟩

theorem filters_eq (h : p.filters ≠ [] → p.Plain) : p.filters = p.firstFilter.toList := by
  cases hvalues : p.values with
  | nil => simp [Param.filters, Param.firstFilter, Param.first, hvalues]
  | cons v rest =>
    by_cases hasks : p.filters = []
    · have hv : v = "" := by
        by_contra hne
        simp [Param.filters, hvalues, hne] at hasks
      simp [hasks, Param.firstFilter, Param.first, hvalues, hv]
    · obtain ⟨-, hhead, htail⟩ := h hasks
      rw [hvalues] at hhead htail
      have hne : v ≠ "" := by simpa using hhead
      have hfirst : p.first = some v := by simp [Param.first, hvalues, hne]
      have hrest : rest.filter (fun v => v ≠ "") = [] := filter_eq_nil_iff.mpr fun w hw => by simpa using htail w hw
      rw [Param.filters, hvalues, filter_cons_of_pos (by simpa using hne), hrest, Param.firstFilter, hfirst]
      rfl

/-- The filters that are compiled, one for each parameter whose first value is not empty. -/
theorem flatMap_firstFilter (q : Values) :
    (q.filterMap param?).flatMap (fun p => p.firstFilter.toList) = (compiled q).filterMap Param.firstFilter := by
  unfold compiled
  induction q.filterMap param? with
  | nil => rfl
  | cons p ps ih =>
    rw [flatMap_cons, ih]
    cases hfirst : p.first with
    | none => simp [Param.firstFilter, hfirst]
    | some v => simp [Param.firstFilter, hfirst]

/-- If nothing is left out in all, nothing is left out of any parameter. -/
theorem length_filters_eq {ps : List Param}
    (h : (ps.flatMap Param.filters).length = (ps.flatMap fun p => p.firstFilter.toList).length) :
    ∀ p ∈ ps, p.filters.length = p.firstFilter.toList.length := by
  have hle (ps : List Param) :
      (ps.flatMap fun p => p.firstFilter.toList).length ≤ (ps.flatMap Param.filters).length := by
    induction ps with
    | nil => exact Nat.le_refl 0
    | cons p ps ih =>
      rw [flatMap_cons, flatMap_cons, length_append, length_append]
      exact Nat.add_le_add (length_firstFilter_le p) ih
  induction ps with
  | nil =>
    intro p hp
    cases hp
  | cons p ps ih =>
    rw [flatMap_cons, flatMap_cons, length_append, length_append] at h
    have hp := length_firstFilter_le p
    have hps := hle ps
    exact forall_mem_cons.mpr ⟨by omega, ih (by omega)⟩

/-- **A compiled list filter says what was asked exactly if every parameter that asks for something is on a field that
is no key word of the grammar, and has its first value and no other.** -/
theorem compileListFilter_faithful_iff (q : Values) (qualifiedModel : String) {declared : List String}
    (hdecl : ∀ f ∈ declared, IsFieldName f) {text : String}
    (h : compileListFilter q qualifiedModel declared = .ok text) :
    Faithful q text ↔ ∀ p ∈ q.filterMap param?, p.filters ≠ [] → p.Plain := by
  have hnames : ∀ p ∈ compiled q, IsFieldName p.field := fun p hp =>
    hdecl p.field (field_mem_of_compileListFilter h p hp)
  obtain ⟨params, pieces, hperm, hpieces, rfl⟩ := compileListFilter_pieces hnames h
  have hnodes : List.Forall₂ Filter.Node (params.filterMap Param.firstFilter) (pieces.map fun x => x.item.2) := by
    clear hperm h
    induction hpieces with
    | nil => exact .nil
    | cons hx _ ih =>
      obtain ⟨v, hv, hnode⟩ := hx.node
      rw [filterMap_cons_some (show Param.firstFilter _ = some _ by rw [Param.firstFilter, hv]; rfl)]
      exact .cons hnode ih
  constructor
  · rintro ⟨tree, hparse, filters, nodes, hperm', hnodes', rfl⟩
    have hkw := not_isKeyword_of_parse hpieces hparse
    -- the two conjunctions are equal, so none of the filters was left out
    rw [parse_joined hpieces hkw] at hparse
    have hlen : filters.length = (params.filterMap Param.firstFilter).length := by
      rw [← conjuncts_conj hnodes, ← conjuncts_conj hnodes', Except.ok.inj hparse]
    rw [hperm'.length_eq, (hperm.filterMap _).length_eq, ← flatMap_firstFilter] at hlen
    intro p hp hasks
    have hlenp := length_filters_eq hlen p hp
    obtain ⟨hhead, htail⟩ := plain_of_length hlenp hasks
    refine ⟨hkw p (hperm.mem_iff.mpr (mem_filter.mpr ⟨hp, ?_⟩)), hhead, htail⟩
    cases hfirst : p.first with
    | some v => rfl
    | none =>
      rw [Param.firstFilter, hfirst] at hlenp
      exact absurd (length_eq_zero_iff.mp hlenp) hasks
  · intro hcond
    have hkw : ∀ p ∈ params, isKeyword p.field = false := by
      intro p hp
      obtain ⟨hmem, hfirst⟩ := mem_filter.mp (hperm.mem_iff.mp hp)
      obtain ⟨v, hv⟩ := Option.isSome_iff_exists.mp hfirst
      obtain ⟨rest, hvalues, hne⟩ := values_of_first hv
      exact (hcond p hmem (by simp [Param.filters, hvalues, hne])).1
    refine ⟨_, parse_joined hpieces hkw, _, _, ?_, hnodes, rfl⟩
    have hall : asked q = (q.filterMap param?).flatMap fun p => p.firstFilter.toList :=
      flatMap_congr fun p hp => filters_eq (hcond p hp)
    rw [hall, flatMap_firstFilter]
    exact hperm.filterMap _

/-- One parameter with a value, and one that is empty. -/
theorem compileListFilter_faithful_state :
    Faithful [("filter[state]", ["draft"]), ("filter[name][like]", [""])] "record.state = 'draft'" := by
  have hcompile : compileListFilter [("filter[state]", ["draft"]), ("filter[name][like]", [""])] "sale.order"
      ["state", "name"] = .ok "record.state = 'draft'" := by decide +kernel
  have hdecl : ∀ f ∈ ["state", "name"], IsFieldName f := by
    intro f hf
    simp only [mem_cons, not_mem_nil, or_false] at hf
    rcases hf with rfl | rfl
    · exact ⟨'s', ['t', 'a', 't', 'e'], by decide, by decide, by decide⟩
    · exact ⟨'n', ['a', 'm', 'e'], by decide, by decide, by decide⟩
  exact (compileListFilter_faithful_iff _ _ hdecl hcompile).mpr (by decide +kernel)

/-- A field may be called `in`, but `record.in` has no parse: the word is the operator. -/
theorem compileListFilter_in_unfaithful : ¬ ∀ (q : Values) (qualifiedModel : String) (declared : List String)
    (text : String), (∀ f ∈ declared, IsFieldName f) → compileListFilter q qualifiedModel declared = .ok text →
      Faithful q text := by
  intro hfaithful
  have hdecl : ∀ f ∈ ["in"], IsFieldName f := by
    intro f hf
    rw [mem_singleton.mp hf]
    exact ⟨'i', ['n'], by decide, by decide, by decide⟩
  have hcompile : compileListFilter [("filter[in]", ["x"])] "stock.move" ["in"] = .ok "record.in = 'x'" := by
    decide +kernel
  obtain ⟨tree, hparse, -⟩ := hfaithful _ _ _ _ hdecl hcompile
  have hfails : (parse "record.in = 'x'").isOk = false := by decide +kernel
  rw [hparse] at hfails
  cases hfails

end GoErp.Dispatch
