import GoErp.Dispatch.ListFilter
import GoErp.Lib.Like
import GoErp.Lib.Separator
import GoErp.Lib.SqlEval

/-!
# `Shell.FilterParams` — the filters of a list view

`http/filter-params.ts`: the shell flattens a map from fields to filter values into query parameters, which the engine
compiles to a condition again (`Dispatch.ListFilter`). A `Record` is the list of its entries, a text on both sides a
list of characters.

`Means` is what a filter value is for; `flattenFilterParams_selects_iff` says when the compiled condition selects it.
A list is joined with commas that its elements may hold, and the text of a `like` is put between two `%` with its own
wildcards unescaped.
-/

namespace GoErp.Shell

open Lib Domain Dispatch List

/-- A filter's value. -/
inductive FilterParamValue where
  /-- a string, or a number or boolean as `String(value)` prints it -/
  | scalar (text : String)
  | list (values : List String)
  | range (gte lte : Option String)
  | like (text : String)
  | isnull (isnull : Bool)
  deriving DecidableEq, Repr

/-- A bound of a range, if it is given. -/
def flattenBound (op : String) : Option String → List (Option String × String)
  | none => []
  | some bound => if bound ≠ "" then [(some op, bound)] else []

/-- The operators and texts that the loop assigns for a value. -/
def flattenValue : FilterParamValue → List (Option String × String)
  | .list values => if values.length > 0 then [(some "in", ",".intercalate values)] else []
  | .like text => if text ≠ "" then [(some "like", "%" ++ text ++ "%")] else []
  | .isnull isnull => [(some "isnull", if isnull then "true" else "false")]
  | .range gte lte => flattenBound "gte" gte ++ flattenBound "lte" lte
  | .scalar text => [(none, text)]

/-- `filter[field]` or `filter[field][op]` -/
def filterKey (field : String) : Option String → String
  | none => "filter[" ++ field ++ "]"
  | some op => "filter[" ++ field ++ "][" ++ op ++ "]"

/-- `flat[key] = value` -/
def assign (flat : List (String × String)) (kv : String × String) : List (String × String) :=
  if flat.any fun x => x.1 = kv.1 then flat.map fun x => if x.1 = kv.1 then kv else x
  else flat ++ [kv]

/-- What the loop assigns, over all entries. -/
def assignments (filter : List (String × FilterParamValue)) : List (String × String) :=
  filter.flatMap fun e => (flattenValue e.2).map fun a => (filterKey e.1 a.1, a.2)

def flattenFilterParams (filter : List (String × FilterParamValue)) : List (String × String) :=
  (assignments filter).foldl assign []

/-- The query `buildURL` makes of the parameters, as the engine reads it. -/
def query (flat : List (String × String)) : Values := flat.map fun kv => (kv.1, [kv.2])

/-! ## What a filter is for -/

section

-- the order of texts, as the column has it
variable (le : String → String → Bool)

/-- The field's value, `none` if it is `NULL`, is one the filter asks for. -/
def FilterParamValue.Means : FilterParamValue → Option String → Prop
  | .scalar text, x => text = "" ∨ x = some text
  | .list values, x => values = [] ∨ ∃ v ∈ values, x = some v
  | .like text, x => text = "" ∨ ∃ t, x = some t ∧ text.toList <:+: t.toList
  | .range gte lte, x =>
    (∀ b, gte = some b → b ≠ "" → ∃ t, x = some t ∧ le b t = true) ∧
      ∀ b, lte = some b → b ≠ "" → ∃ t, x = some t ∧ le t b = true
  | .isnull b, x => x.isNone = b

/-- A list with an empty element asks for nothing that is specified. -/
def FilterParamValue.Specified : FilterParamValue → Prop
  | .list values => "" ∉ values
  | _ => True

/-! ## The rows of a condition -/

/-- The text of an operand; `none` is `NULL`. -/
def operandText (row : String → Option String) : Domain.Expr → Option String
  | .recordField field => row field
  | .literal (.string s) => some s
  | _ => none

/-- A comparison of two texts. -/
def compareText : BinOp → String → String → Option Bool
  | .eq, a, b => some (a = b)
  | .ne, a, b => some (a ≠ b)
  | .lt, a, b => some (le a b && a ≠ b)
  | .gt, a, b => some (le b a && a ≠ b)
  | .le, a, b => some (le a b)
  | .ge, a, b => some (le b a)
  | .like, a, b => some (Like.like b.toList a.toList)
  | .ilike, _, _ | .and, _, _ | .or, _, _ => none

/-- The truth value of the conditions that a list filter is compiled to. -/
def truth (row : String → Option String) : Domain.Expr → Option Bool
  | .literal (.bool b) => some b
  | .binary op left right =>
    if op = .and then Sql.and3 (truth row left) (truth row right)
    else (operandText row left).bind fun a => (operandText row right).bind fun b => compareText le op a b
  | .isNull operand not => some ((operandText row operand).isNone != not)
  | .inList operand values =>
    (operandText row operand).bind fun a =>
      values.foldr (fun v t => Sql.or3 ((operandText row v).map fun b => decide (a = b)) t) (some false)
  | _ => none

/-- The compiled condition selects the rows that the filters mean, in every order in which the engine may read the
    parameters. -/
def Selects (declared : List String) (filter : List (String × FilterParamValue)) : Prop :=
  ∀ q qualifiedModel, q.Perm (query (flattenFilterParams filter)) →
    ∃ text tree, compileListFilter q qualifiedModel declared = .ok text ∧ parse text = .ok tree ∧
      ∀ row, truth le row tree = some true ↔ ∀ e ∈ filter, e.2.Means le (row e.1)

end

/-- The filter asks for something. -/
def FilterParamValue.asks (v : FilterParamValue) : Bool := (flattenValue v).any fun a => decide (a.2 ≠ "")

/-- The value comes through the encoding. -/
def FilterParamValue.Plain : FilterParamValue → Prop
  | .list values => ∀ v ∈ values, ',' ∉ v.toList
  | .like text => text.toList.all Like.plain = true
  | _ => True

/-- The filter is on a field the condition can name, with a value that comes through. -/
structure Clean (e : String × FilterParamValue) : Prop where
  field : e.2.asks = true → isKeyword e.1 = false
  value : e.2.Plain

/-! ## The parameters -/

theorem isIdentPart_ne {c : Char} (h : Domain.isIdentPart c = true) : c ≠ '[' ∧ c ≠ ']' ∧ c ≠ ':' := by
  refine ⟨?_, ?_, ?_⟩ <;> rintro rfl <;> exact absurd h (by decide)

/-- The operators that the shell sends. -/
def shellOps : List (Option String) := [none, some "in", some "like", some "isnull", some "gte", some "lte"]

variable {v : FilterParamValue} {a : Option String × String}

/-- What is sent for a value: one of the operators, the operator of nulls with a boolean. -/
theorem flattenValue_op (h : a ∈ flattenValue v) :
    a.1 ∈ shellOps ∧ (a.1 = some "isnull" → a.2 = "true" ∨ a.2 = "false") := by
  have hone : ∀ {op : Option String} {text : String}, op ∈ shellOps → op ≠ some "isnull" → a ∈ [(op, text)] →
      a.1 ∈ shellOps ∧ (a.1 = some "isnull" → a.2 = "true" ∨ a.2 = "false") := by
    intro op text hop hne ha
    rw [mem_singleton.mp ha]
    exact ⟨hop, fun heq => absurd heq hne⟩
  cases v with
  | scalar text => exact hone (by decide) (by decide) h
  | list values | like text =>
    simp only [flattenValue] at h
    split at h
    · exact hone (by decide) (by decide) h
    · cases h
  | range gte lte =>
    have hbound : ∀ {op : String} {b : Option String}, a ∈ flattenBound op b → ∃ text, a ∈ [(some op, text)] := by
      intro op b hb
      unfold flattenBound at hb
      split at hb
      · cases hb
      split at hb
      · exact ⟨_, hb⟩
      · cases hb
    rcases mem_append.mp h with h | h
    all_goals
      obtain ⟨text, ha⟩ := hbound h
      exact hone (by decide) (by decide) ha
  | isnull b =>
    rw [mem_singleton.mp h]
    have hop : some "isnull" ∈ shellOps := by decide
    refine ⟨hop, fun _ => ?_⟩
    cases b with
    | true => exact .inl rfl
    | false => exact .inr rfl

theorem op_mem_shellOps (h : a ∈ flattenValue v) : a.1 ∈ shellOps := (flattenValue_op h).1

variable {op : Option String} {field : String}

/-- The engine reads the field and the operator back. -/
theorem filterParamPattern_filterKey (hf : IsFieldName field) (hop : op ∈ shellOps) :
    filterParamPattern (filterKey field op) = some (field, op.getD "") := by
  have hbreaks : ∀ rest, Breaks notBracket (']' :: rest) := fun rest => breaks_cons (by decide)
  have hall : field.toList.all notBracket = true := by
    refine all_eq_true.mpr fun c hc => ?_
    obtain ⟨hopen, hclose, -⟩ := isIdentPart_ne (hf.isIdentPart c hc)
    simp [notBracket, hopen, hclose]
  have hne : field.toList ≠ [] := by
    obtain ⟨c, w, hfield, -, -⟩ := hf
    simp [hfield]
  cases op with
  | none =>
    have hkey : (filterKey field none).toList =
        'f' :: 'i' :: 'l' :: 't' :: 'e' :: 'r' :: '[' :: (field.toList ++ [']']) := by simp [filterKey]
    obtain ⟨htake, hdrop⟩ := takeWhile_append_breaks hall (hbreaks [])
    simp [filterParamPattern, hkey, htake, hdrop, hne]
  | some op =>
    have hkey : (filterKey field (some op)).toList = 'f' :: 'i' :: 'l' :: 't' :: 'e' :: 'r' :: '[' ::
        (field.toList ++ ']' :: '[' :: (op.toList ++ [']'])) := by simp [filterKey]
    have hop' : op.toList.all notBracket = true ∧ op.toList ≠ [] :=
      have hops : ∀ o ∈ shellOps, ∀ op ∈ o, op.toList.all notBracket = true ∧ op.toList ≠ [] := by decide
      hops _ hop op rfl
    obtain ⟨htake, hdrop⟩ := takeWhile_append_breaks hall (hbreaks ('[' :: (op.toList ++ [']'])))
    obtain ⟨htake', hdrop'⟩ := takeWhile_append_breaks hop'.1 (hbreaks [])
    simp [filterParamPattern, hkey, htake, hdrop, hne, htake', hdrop', hop'.2]

theorem param?_filterKey (hf : IsFieldName field) (hop : op ∈ shellOps) (values : List String) :
    param? (filterKey field op, values) = some ⟨field, op.getD "eq", values⟩ := by
  have hcolon : ':' ∉ field.toList := fun h => (isIdentPart_ne (hf.isIdentPart _ h)).2.2 rfl
  rw [param?, filterParamPattern_filterKey hf hop]
  simp only [if_neg hcolon]
  cases op with
  | none => rfl
  | some op =>
    have hne : op ≠ "" := by
      rintro rfl
      exact absurd hop (by decide)
    simp [hne]

/-- The parameter of an operator and a text. -/
def paramOf (field : String) (a : Option String × String) : Param := ⟨field, a.1.getD "eq", [a.2]⟩

theorem filterKey_inj {f f' : String} (hf : IsFieldName f) (hf' : IsFieldName f') {op' : Option String}
    (hop : op ∈ shellOps) (hop' : op' ∈ shellOps) (h : filterKey f op = filterKey f' op') : f = f' ∧ op = op' := by
  have hpat := congrArg filterParamPattern h
  rw [filterParamPattern_filterKey hf hop, filterParamPattern_filterKey hf' hop'] at hpat
  obtain ⟨hfield, hop_eq⟩ := Prod.mk.inj (Option.some.inj hpat)
  have hops : ∀ o ∈ shellOps, ∀ o' ∈ shellOps, o.getD "" = o'.getD "" → o = o' := by decide
  exact ⟨hfield, hops op hop op' hop' hop_eq⟩

theorem nodup_flattenValue (v : FilterParamValue) : ((flattenValue v).map Prod.fst).Nodup := by
  cases v with
  | range gte lte =>
    have hbound : ∀ op (b : Option String), (flattenBound op b).map Prod.fst = [] ∨
        (flattenBound op b).map Prod.fst = [some op] := by
      intro op b
      unfold flattenBound
      split
      · exact .inl rfl
      split
      · exact .inr rfl
      · exact .inl rfl
    rw [flattenValue, map_append]
    rcases hbound "gte" gte with h | h <;> rcases hbound "lte" lte with h' | h' <;> rw [h, h'] <;> decide
  | list values => rw [flattenValue]; split <;> simp
  | like text => rw [flattenValue]; split <;> simp
  | _ => simp [flattenValue]

section

variable {filter : List (String × FilterParamValue)} (hnames : ∀ e ∈ filter, IsFieldName e.1)

theorem mem_assignments {kv : String × String} :
    kv ∈ assignments filter ↔ ∃ e ∈ filter, ∃ a ∈ flattenValue e.2, (filterKey e.1 a.1, a.2) = kv := by
  simp only [assignments, mem_flatMap, mem_map]

include hnames

/-- No parameter is assigned twice. -/
theorem nodup_assignments (hnodup : (filter.map Prod.fst).Nodup) : ((assignments filter).map Prod.fst).Nodup := by
  rw [assignments, map_flatMap, nodup_flatMap]
  constructor
  · intro e he
    rw [List.map_map]
    have hfst := nodup_flattenValue e.2
    rw [List.Nodup, pairwise_map] at hfst ⊢
    refine hfst.imp_of_mem fun ha hb hne heq => hne ?_
    exact (filterKey_inj (hnames e he) (hnames e he) (op_mem_shellOps ha) (op_mem_shellOps hb) heq).2
  · rw [List.Nodup, pairwise_map] at hnodup
    refine hnodup.imp_of_mem fun he he' hne => ?_
    intro key hkey hkey'
    simp only [List.map_map, mem_map, Function.comp] at hkey hkey'
    obtain ⟨a, ha, rfl⟩ := hkey
    obtain ⟨b, hb, heq⟩ := hkey'
    exact hne (filterKey_inj (hnames _ he) (hnames _ he') (op_mem_shellOps ha) (op_mem_shellOps hb) heq.symm).1

omit hnames in
theorem foldl_assign {kvs flat : List (String × String)} (h : ((flat ++ kvs).map Prod.fst).Nodup) :
    kvs.foldl assign flat = flat ++ kvs := by
  induction kvs generalizing flat with
  | nil => rw [foldl_nil, append_nil]
  | cons kv kvs ih =>
    have hnew : assign flat kv = flat ++ [kv] := by
      refine if_neg fun hany => ?_
      obtain ⟨x, hx, hkey⟩ := List.any_eq_true.mp hany
      rw [map_append, map_cons] at h
      exact (nodup_append.mp h).2.2 x.1 (mem_map_of_mem hx) kv.1 mem_cons_self (of_decide_eq_true hkey)
    rw [append_cons] at h ⊢
    rw [foldl_cons, hnew, ih h]

theorem flattenFilterParams_eq (hnodup : (filter.map Prod.fst).Nodup) :
    flattenFilterParams filter = assignments filter :=
  foldl_assign (nodup_assignments hnames hnodup)

variable {q : Values} (hq : q.Perm (query (assignments filter)))

include hq

omit hnames in
theorem mem_query {entry : String × List String} :
    entry ∈ q ↔ ∃ e ∈ filter, ∃ a ∈ flattenValue e.2, (filterKey e.1 a.1, [a.2]) = entry := by
  rw [hq.mem_iff, query, mem_map]
  constructor
  · rintro ⟨kv, hkv, rfl⟩
    obtain ⟨e, he, a, ha, rfl⟩ := mem_assignments.mp hkv
    exact ⟨e, he, a, ha, rfl⟩
  · rintro ⟨e, he, a, ha, rfl⟩
    exact ⟨_, mem_assignments.mpr ⟨e, he, a, ha, rfl⟩, rfl⟩

/-- What the engine compiles are the parameters with a text. -/
theorem mem_compiled {p : Param} :
    p ∈ compiled q ↔ ∃ e ∈ filter, ∃ a ∈ flattenValue e.2, a.2 ≠ "" ∧ paramOf e.1 a = p := by
  have hfirst : ∀ (f : String) (a : Option String × String), (paramOf f a).first.isSome = true ↔ a.2 ≠ "" := by
    intro f a
    by_cases ha : a.2 = ""
    all_goals simp [paramOf, Param.first, ha]
  rw [compiled, mem_filter, mem_filterMap]
  constructor
  · rintro ⟨⟨entry, hentry, hp⟩, hsome⟩
    obtain ⟨e, he, a, ha, rfl⟩ := (mem_query hq).mp hentry
    rw [param?_filterKey (hnames e he) (op_mem_shellOps ha)] at hp
    cases hp
    exact ⟨e, he, a, ha, (hfirst e.1 a).mp hsome, rfl⟩
  rintro ⟨e, he, a, ha, hne, rfl⟩
  exact ⟨⟨_, (mem_query hq).mpr ⟨e, he, a, ha, rfl⟩, param?_filterKey (hnames e he) (op_mem_shellOps ha) _⟩,
    (hfirst e.1 a).mpr hne⟩

end

/-! ## The compilation succeeds -/

theorem compileClause_succeeds (field : String) (h : a ∈ flattenValue v) :
    ∃ expr, compileClause field (a.1.getD "eq") a.2 = .ok expr := by
  have hops : ∀ o ∈ shellOps, o.getD "eq" = "in" ∨ o = some "isnull" ∨
      o.getD "eq" ≠ "in" ∧ o.getD "eq" ≠ "isnull" ∧ (filterOperators (o.getD "eq")).isSome = true := by decide
  obtain ⟨hop, hbool⟩ := flattenValue_op h
  unfold compileClause
  rcases hops _ hop with hin | hnull | ⟨hin, hnull, hop⟩
  · exact ⟨_, if_pos hin⟩
  · rcases hbool hnull with hv | hv
    all_goals
      exact ⟨_, by simp [hnull, hv]; rfl⟩
  obtain ⟨o, ho⟩ := Option.isSome_iff_exists.mp hop
  rw [if_neg hin, if_neg hnull, ho]
  exact ⟨_, rfl⟩

variable {declared : List String}

theorem compileParam_succeeds (qualifiedModel : String) (hf : IsFieldName field) (hdecl : field ∈ declared)
    (h : a ∈ flattenValue v) :
    ∃ clause, compileParam declared qualifiedModel (filterKey field a.1) [a.2] = .ok clause := by
  have hcolon : ':' ∉ field.toList := fun hc => (isIdentPart_ne (hf.isIdentPart _ hc)).2.2 rfl
  obtain ⟨expr, hexpr⟩ := compileClause_succeeds field h
  have hop : (if a.1.getD "" = "" then "eq" else a.1.getD "") = a.1.getD "eq" := by
    have hops : ∀ o ∈ shellOps, (if o.getD "" = "" then "eq" else o.getD "") = o.getD "eq" := by decide
    exact hops _ (op_mem_shellOps h)
  unfold compileParam
  rw [filterParamPattern_filterKey hf (op_mem_shellOps h)]
  simp only [if_neg hcolon, if_neg (not_not.mpr hdecl), hop, hexpr]
  split
  · exact ⟨_, rfl⟩
  · exact ⟨_, rfl⟩

theorem compileParams_succeeds {qualifiedModel : String} {q : Values}
    (h : ∀ entry ∈ q, ∃ clause, compileParam declared qualifiedModel entry.1 entry.2 = .ok clause) :
    ∃ clauses, compileParams declared qualifiedModel q = .ok clauses := by
  induction q with
  | nil => exact ⟨[], rfl⟩
  | cons entry q ih =>
    obtain ⟨clause, hclause⟩ := h entry mem_cons_self
    obtain ⟨clauses, hclauses⟩ := ih fun x hx => h x (mem_cons_of_mem entry hx)
    exact ⟨clause.toList ++ clauses, bind_eq_ok.mpr ⟨clause, hclause, bind_eq_ok.mpr ⟨clauses, hclauses, rfl⟩⟩⟩

theorem compileListFilter_succeeds (qualifiedModel : String) {q : Values} {filter : List (String × FilterParamValue)}
    (hnames : ∀ e ∈ filter, IsFieldName e.1) (hdecl : ∀ e ∈ filter, e.1 ∈ declared)
    (hq : q.Perm (query (assignments filter))) : ∃ text, compileListFilter q qualifiedModel declared = .ok text := by
  have hparams : ∀ entry ∈ q, ∃ clause, compileParam declared qualifiedModel entry.1 entry.2 = .ok clause := by
    intro entry hentry
    obtain ⟨e, he, a, ha, rfl⟩ := (mem_query hq).mp hentry
    exact compileParam_succeeds qualifiedModel (hnames e he) (hdecl e he) ha
  obtain ⟨clauses, hclauses⟩ := compileParams_succeeds hparams
  unfold compileListFilter
  rw [hclauses]
  show ∃ text, (if clauses = [] then _ else _) = _
  split
  · exact ⟨_, rfl⟩
  · exact ⟨_, rfl⟩

/-! ## The rows it selects -/

section

variable {le : String → String → Bool} {row : String → Option String}

theorem truth_andAll {e : Domain.Expr} {es : List Domain.Expr} :
    truth le row (andAll e es) = some true ↔ truth le row e = some true ∧ ∀ x ∈ es, truth le row x = some true := by
  induction es generalizing e with
  | nil => simp [andAll]
  | cons x es ih =>
    show truth le row (andAll (.binary .and e x) es) = some true ↔ _
    rw [ih]
    show Sql.and3 (truth le row e) (truth le row x) = some true ∧ _ ↔ _
    rw [Sql.and3_eq_true, forall_mem_cons, and_assoc]

theorem truth_conj {nodes : List Domain.Expr} :
    truth le row (conj nodes) = some true ↔ ∀ x ∈ nodes, truth le row x = some true := by
  cases nodes with
  | nil => exact ⟨nofun, fun _ => rfl⟩
  | cons e es =>
    show truth le row (andAll e es) = some true ↔ _
    rw [truth_andAll, forall_mem_cons]

variable (le row) in
/-- The row meets what an operator and a text ask of a field. -/
def Meets (field : String) (a : Option String × String) : Prop :=
  ∃ e, filterNode field (a.1.getD "eq") a.2 = some e ∧ truth le row e = some true

variable {field text : String}

theorem meets_node {e : Domain.Expr} {a : Option String × String} (h : filterNode field (a.1.getD "eq") a.2 = some e) :
    Meets le row field a ↔ truth le row e = some true := by
  constructor
  · rintro ⟨e', he', htruth⟩
    rwa [Option.some.inj (h.symm.trans he')]
  · intro htruth
    exact ⟨e, h, htruth⟩

/-- The operators that compare. -/
theorem meets_compare {op : Option String} {o : BinOp} (hin : op.getD "eq" ≠ "in") (hnull : op.getD "eq" ≠ "isnull")
    (ho : filterOperators (op.getD "eq") = some o) (hand : o ≠ .and) :
    Meets le row field (op, text) ↔ ∃ t, row field = some t ∧ compareText le o t text = some true := by
  have hnode : filterNode field (op.getD "eq") text =
      some (.binary o (.recordField field) (.literal (.string text))) := by
    rw [filterNode, if_neg hin, if_neg hnull, ho]
    rfl
  rw [meets_node hnode, truth, if_neg hand]
  exact Option.bind_eq_some_iff

theorem meets_in : Meets le row field (some "in", text) ↔ ∃ v ∈ splitComma text, row field = some v := by
  have hfold : ∀ (a : String) (values : List String), (values.map fun s => Domain.Expr.literal (.string s)).foldr
      (fun v t => Sql.or3 ((operandText row v).map fun b => decide (a = b)) t) (some false) =
        some true ↔ a ∈ values := by
    intro a values
    induction values with
    | nil => simp
    | cons v values ih =>
      rw [map_cons, foldr_cons, Sql.or3_eq_true, ih, mem_cons]
      show some (decide (a = v)) = some true ∨ _ ↔ _
      rw [Option.some.injEq, decide_eq_true_eq]
  have hnode : filterNode field "in" text =
      some (.inList (.recordField field) ((splitComma text).map fun s => .literal (.string s))) := if_pos rfl
  rw [meets_node hnode]
  show ((row field).bind fun a => _) = some true ↔ _
  rw [Option.bind_eq_some_iff]
  constructor
  · rintro ⟨a, ha, hmem⟩
    exact ⟨a, (hfold a _).mp hmem, ha⟩
  · rintro ⟨a, hmem, ha⟩
    exact ⟨a, ha, (hfold a _).mpr hmem⟩

theorem meets_isnull {b : Bool} :
    Meets le row field (some "isnull", if b then "true" else "false") ↔ (row field).isNone = b := by
  have hnode : filterNode field "isnull" (if b then "true" else "false") = some (.isNull (.recordField field) !b) := by
    cases b <;> rfl
  rw [meets_node hnode]
  show some ((row field).isNone != !b) = some true ↔ _
  cases b <;> cases (row field).isNone <;> decide

/-! ### What a value comes to -/

variable (le) in
/-- The row meets all that is sent for a value. -/
def Sent (row : String → Option String) (field : String) (v : FilterParamValue) : Prop :=
  ∀ a ∈ flattenValue v, a.2 ≠ "" → Meets le row field a

theorem sent_scalar : Sent le row field (.scalar text) ↔ (FilterParamValue.scalar text).Means le (row field) := by
  have heq : Meets le row field (none, text) ↔ row field = some text := by
    rw [meets_compare (by decide) (by decide) rfl (by decide)]
    simp [compareText]
  show (∀ a ∈ [(none, text)], a.2 ≠ "" → _) ↔ text = "" ∨ row field = some text
  rw [forall_mem_singleton, heq, or_iff_not_imp_left]

theorem sent_isnull {b : Bool} : Sent le row field (.isnull b) ↔ (FilterParamValue.isnull b).Means le (row field) := by
  show (∀ a ∈ [(some "isnull", if b then "true" else "false")], a.2 ≠ "" → _) ↔ (row field).isNone = b
  rw [forall_mem_singleton, meets_isnull]
  have hne : (if b then "true" else "false") ≠ "" := by cases b <;> decide
  exact ⟨fun h => h hne, fun h _ => h⟩

theorem sent_bound {op : String} {o : BinOp} (hin : op ≠ "in") (hnull : op ≠ "isnull")
    (ho : filterOperators op = some o) (hand : o ≠ .and) {bound : Option String} :
    (∀ a ∈ flattenBound op bound, a.2 ≠ "" → Meets le row field a) ↔
      ∀ b, bound = some b → b ≠ "" → ∃ t, row field = some t ∧ compareText le o t b = some true := by
  cases bound with
  | none => exact ⟨nofun, nofun⟩
  | some b =>
    have hcmp : Meets le row field (some op, b) ↔ ∃ t, row field = some t ∧ compareText le o t b = some true :=
      meets_compare hin hnull ho hand
    by_cases hb : b = ""
    · rw [flattenBound, if_neg (not_not.mpr hb)]
      exact ⟨fun _ c hc hne => absurd (Option.some.inj hc ▸ hb) hne, nofun⟩
    · rw [flattenBound, if_pos hb, forall_mem_singleton, hcmp]
      exact ⟨fun h c hc _ => Option.some.inj hc ▸ h hb, fun h hne => h b rfl hne⟩

theorem sent_range {gte lte : Option String} :
    Sent le row field (.range gte lte) ↔ (FilterParamValue.range gte lte).Means le (row field) := by
  show (∀ a ∈ flattenBound "gte" gte ++ flattenBound "lte" lte, a.2 ≠ "" → _) ↔ _
  rw [forall_mem_append, sent_bound (by decide) (by decide) rfl (by decide),
    sent_bound (by decide) (by decide) rfl (by decide)]
  simp only [compareText, Option.some.injEq]
  rfl

variable {values : List String}

/-- A list of texts is read back if no text holds the separator. -/
theorem splitComma_intercalate (hne : values ≠ []) (h : ∀ v ∈ values, ',' ∉ v.toList) :
    splitComma (",".intercalate values) = values := by
  have hsplit := @splitOn_intercalate _ (values.map String.toList) _ _ ',' (by simpa using h) (by simpa using hne)
  have hjoin : (",".intercalate values).toList = [','].intercalate (values.map String.toList) := by simp
  rw [splitComma, hjoin, hsplit, List.map_map]
  simp

theorem intercalate_ne_empty (hne : values ≠ []) (h : "" ∉ values) : ",".intercalate values ≠ "" := by
  obtain ⟨v, vs, rfl⟩ := exists_cons_of_ne_nil hne
  have hv : v ≠ "" := fun heq => h (heq ▸ mem_cons_self)
  cases vs with
  | nil => simpa using hv
  | cons w ws =>
    intro hempty
    have hlist := congrArg String.toList hempty
    simp at hlist

theorem sent_list (hne : values ≠ []) (hspec : "" ∉ values) :
    Sent le row field (.list values) ↔ ∃ v ∈ splitComma (",".intercalate values), row field = some v := by
  rw [Sent, flattenValue, if_pos (length_pos_of_ne_nil hne), forall_mem_singleton, meets_in]
  have htext : ",".intercalate values ≠ "" := intercalate_ne_empty hne hspec
  exact ⟨fun h => h htext, fun h _ => h⟩

theorem sent_like (hne : text ≠ "") : Sent le row field (.like text) ↔
      ∃ t, row field = some t ∧ Like.like ('%' :: text.toList ++ ['%']) t.toList = true := by
  have hlike : Meets le row field (some "like", "%" ++ text ++ "%") ↔
      ∃ t, row field = some t ∧ Like.like ('%' :: text.toList ++ ['%']) t.toList = true := by
    rw [meets_compare (by decide) (by decide) rfl (by decide)]
    simp [compareText]
  have htext : "%" ++ text ++ "%" ≠ "" := by
    intro hempty
    have hlist := congrArg String.toList hempty
    simp at hlist
  rw [Sent, flattenValue, if_pos hne, forall_mem_singleton, hlike]
  exact ⟨fun h => h htext, fun h _ => h⟩

/-- A value that comes through the encoding asks for what it means. -/
theorem sent_iff_means {v : FilterParamValue} (hspec : v.Specified) (hplain : v.Plain) :
    Sent le row field v ↔ v.Means le (row field) := by
  cases v with
  | scalar text => exact sent_scalar
  | isnull b => exact sent_isnull
  | range gte lte => exact sent_range
  | list values =>
    by_cases hne : values = []
    · subst hne
      exact ⟨fun _ => .inl rfl, fun _ => nofun⟩
    · rw [sent_list hne hspec, splitComma_intercalate hne hplain]
      exact ⟨.inr, fun h => h.resolve_left hne⟩
  | like text =>
    by_cases hne : text = ""
    · subst hne
      exact ⟨fun _ => .inl rfl, fun _ => nofun⟩
    rw [sent_like hne]
    simp only [(Like.like_substring_iff _).mpr hplain]
    exact ⟨.inr, fun h => h.resolve_left hne⟩

variable (le field) in
/-- A value that asks for what it means came through the encoding. -/
theorem plain_of_sent {v : FilterParamValue} (hspec : v.Specified)
    (h : ∀ x, Sent le (fun _ => x) field v ↔ v.Means le x) : v.Plain := by
  cases v with
  | scalar text => trivial
  | isnull b => trivial
  | range gte lte => trivial
  | list values =>
    intro v hv hcomma
    have hne : values ≠ [] := ne_nil_of_mem hv
    -- the element itself is not selected
    obtain ⟨part, hpart, heq⟩ := (sent_list hne hspec).mp ((h (some v)).mpr (.inr ⟨v, hv, rfl⟩))
    obtain ⟨cs, hcs, rfl⟩ := mem_map.mp hpart
    rw [Option.some.inj heq, String.toList_ofList] at hcomma
    exact notMem_of_mem_splitOn hcs hcomma
  | like text =>
    by_cases hne : text = ""
    · subst hne
      rfl
    refine (Like.like_substring_iff _).mp fun cs => ?_
    have hiff := h (some (String.ofList cs))
    rw [sent_like hne] at hiff
    have hmeans : (FilterParamValue.like text).Means le (some (String.ofList cs)) ↔ text.toList <:+: cs := by
      show text = "" ∨ _ ↔ _
      simp [hne]
    rw [hmeans] at hiff
    simpa using hiff

variable {filter : List (String × FilterParamValue)} {declared : List String} {qualifiedModel : String} {q : Values}

/-- An assignment is sent as a parameter with one value. -/
theorem eq_of_first_paramOf {a : Option String × String} {v : String} (h : (paramOf field a).first = some v) :
    v = a.2 := by
  obtain ⟨rest, hvalues, -⟩ := values_of_first h
  exact (cons.inj hvalues).1.symm

variable (le) in
/-- If no field with a filter is a key word, the rows of the compiled condition are those that meet what is sent. -/
theorem rows_of_compiled (hnames : ∀ e ∈ filter, IsFieldName e.1) (hq : q.Perm (query (assignments filter)))
    (hkw : ∀ e ∈ filter, e.2.asks = true → isKeyword e.1 = false)
    (h : compileListFilter q qualifiedModel declared = .ok text) : ∃ tree, parse text = .ok tree ∧
      ∀ row, truth le row tree = some true ↔ ∀ e ∈ filter, Sent le row e.1 e.2 := by
  have hcompiled : ∀ p ∈ compiled q, IsFieldName p.field ∧ isKeyword p.field = false := by
    intro p hp
    obtain ⟨e, he, a, ha, hne, rfl⟩ := (mem_compiled hnames hq).mp hp
    exact ⟨hnames e he, hkw e he (List.any_eq_true.mpr ⟨a, ha, decide_eq_true hne⟩)⟩
  obtain ⟨params, pieces, hperm, hpieces, rfl⟩ := compileListFilter_pieces (fun p hp => (hcompiled p hp).1) h
  refine ⟨_, parse_joined hpieces fun p hp => (hcompiled p (hperm.mem_iff.mp hp)).2, fun row => ?_⟩
  rw [truth_conj]
  constructor
  · intro hall e he a ha hne
    have hp : paramOf e.1 a ∈ params := hperm.mem_iff.mpr ((mem_compiled hnames hq).mpr ⟨e, he, a, ha, hne, rfl⟩)
    obtain ⟨x, hx, hpiece⟩ := exists_of_forall₂ hpieces.flip hp
    obtain ⟨v, hv, hnode⟩ := PieceOf.node hpiece
    rw [eq_of_first_paramOf hv] at hnode
    exact ⟨_, hnode, hall _ (mem_map_of_mem hx)⟩
  · intro hall node hnode
    obtain ⟨x, hx, rfl⟩ := mem_map.mp hnode
    obtain ⟨p, hp, hpiece⟩ := exists_of_forall₂ hpieces hx
    obtain ⟨e, he, a, ha, hne, rfl⟩ := (mem_compiled hnames hq).mp (hperm.mem_iff.mp hp)
    obtain ⟨v, hv, hnode⟩ := hpiece.node
    rw [eq_of_first_paramOf hv] at hnode
    exact (meets_node hnode).mp (hall e he a ha hne)

/-- If the condition parses, no field with a filter is a key word. -/
theorem not_isKeyword_of_compiled (hnames : ∀ e ∈ filter, IsFieldName e.1) (hq : q.Perm (query (assignments filter)))
    (h : compileListFilter q qualifiedModel declared = .ok text) {tree : Domain.Expr} (hparse : parse text = .ok tree) :
    ∀ e ∈ filter, e.2.asks = true → isKeyword e.1 = false := by
  have hcompiled : ∀ p ∈ compiled q, IsFieldName p.field := by
    intro p hp
    obtain ⟨e, he, a, -, -, rfl⟩ := (mem_compiled hnames hq).mp hp
    exact hnames e he
  obtain ⟨params, pieces, hperm, hpieces, rfl⟩ := compileListFilter_pieces hcompiled h
  have hkw := not_isKeyword_of_parse hpieces hparse
  intro e he hasks
  obtain ⟨a, ha, hne⟩ := List.any_eq_true.mp hasks
  have hp : paramOf e.1 a ∈ compiled q := (mem_compiled hnames hq).mpr ⟨e, he, a, ha, of_decide_eq_true hne, rfl⟩
  have hfield := hkw _ (hperm.mem_iff.mpr hp)
  exact hfield

theorem selects_of_clean (hnodup : (filter.map Prod.fst).Nodup) (hdecl : ∀ e ∈ filter, e.1 ∈ declared)
    (hnames : ∀ e ∈ filter, IsFieldName e.1) (hspec : ∀ e ∈ filter, e.2.Specified) (hclean : ∀ e ∈ filter, Clean e) :
    Selects le declared filter := by
  intro q qualifiedModel hq
  rw [flattenFilterParams_eq hnames hnodup] at hq
  obtain ⟨text, htext⟩ := compileListFilter_succeeds qualifiedModel hnames hdecl hq
  obtain ⟨tree, hparse, hrows⟩ := rows_of_compiled le hnames hq (fun e he => (hclean e he).field) htext
  refine ⟨text, tree, htext, hparse, fun row => ?_⟩
  rw [hrows]
  exact forall₂_congr fun e he => sent_iff_means (hspec e he) (hclean e he).value

theorem clean_of_selects {e : String × FilterParamValue} (hname : IsFieldName e.1) (hspec : e.2.Specified)
    (h : Selects le declared [e]) : Clean e := by
  have hnames : ∀ x ∈ [e], IsFieldName x.1 := by
    rw [forall_mem_singleton]
    exact hname
  have hflat := flattenFilterParams_eq hnames (nodup_singleton e.1)
  obtain ⟨text, tree, htext, hparse, hrows⟩ := h _ "" (.refl _)
  have hkw := not_isKeyword_of_compiled hnames (hflat ▸ .refl _) htext hparse
  obtain ⟨tree', hparse', hrows'⟩ := rows_of_compiled le hnames (hflat ▸ .refl _) hkw htext
  cases hparse.symm.trans hparse'
  refine ⟨hkw e mem_cons_self, plain_of_sent le e.1 hspec fun x => ?_⟩
  have hboth := (hrows' fun _ => x).symm.trans (hrows fun _ => x)
  rwa [forall_mem_singleton, forall_mem_singleton] at hboth

end

/-- **The condition compiled from a map of filters selects the rows the map means**, and so does that of each of its
    parts, exactly if no filtered field is a key word, no element of a list holds a comma and no `like` text a
    wildcard or an escape. -/
theorem flattenFilterParams_selects_iff (le : String → String → Bool) {declared : List String}
    {filter : List (String × FilterParamValue)} (hnodup : (filter.map Prod.fst).Nodup)
    (hdecl : ∀ e ∈ filter, e.1 ∈ declared) (hnames : ∀ e ∈ filter, IsFieldName e.1)
    (hspec : ∀ e ∈ filter, e.2.Specified) :
    (∀ part, part.Sublist filter → Selects le declared part) ↔ ∀ e ∈ filter, Clean e := by
  constructor
  · intro h e he
    exact clean_of_selects (hnames e he) (hspec e he) (h [e] (singleton_sublist.mpr he))
  intro hclean part hpart
  have hmem := hpart.subset
  exact selects_of_clean ((hpart.map Prod.fst).nodup hnodup) (fun e he => hdecl e (hmem he))
    (fun e he => hnames e (hmem he)) (fun e he => hspec e (hmem he)) fun e he => hclean e (hmem he)

theorem flattenFilterParams_selects_states : Selects (fun _ _ => true) ["state", "name"]
    [("state", .list ["draft", "done"]), ("name", .like "bolt")] := by
  have hname : ∀ e ∈ [("state", FilterParamValue.list ["draft", "done"]), ("name", .like "bolt")], IsFieldName e.1 := by
    rw [forall_mem_cons, forall_mem_singleton]
    exact ⟨⟨'s', ['t', 'a', 't', 'e'], by decide, by decide, by decide⟩,
      ⟨'n', ['a', 'm', 'e'], by decide, by decide, by decide⟩⟩
  refine (flattenFilterParams_selects_iff _ (by decide) (by decide) hname ?_).mpr ?_ _ (List.Sublist.refl _)
  · rw [forall_mem_cons, forall_mem_singleton]
    have hlist : "" ∉ ["draft", "done"] := by decide
    exact ⟨hlist, trivial⟩
  rw [forall_mem_cons, forall_mem_singleton]
  have hlist : ∀ v ∈ ["draft", "done"], ',' ∉ v.toList := by decide
  have hlike : "bolt".toList.all Like.plain = true := by decide
  exact ⟨⟨fun _ => by decide, hlist⟩, ⟨fun _ => by decide, hlike⟩⟩

/-- An element with a comma is sent as two. -/
theorem flattenFilterParams_misses_comma : ¬ ∀ (le : String → String → Bool) (declared : List String)
    (filter : List (String × FilterParamValue)), (filter.map Prod.fst).Nodup → (∀ e ∈ filter, e.1 ∈ declared) →
      (∀ e ∈ filter, IsFieldName e.1) → (∀ e ∈ filter, e.2.Specified) → Selects le declared filter := by
  intro hselects
  have hname : IsFieldName "tag" := ⟨'t', ['a', 'g'], by decide, by decide, by decide⟩
  have hspec : (FilterParamValue.list ["a,b"]).Specified := by
    show "" ∉ ["a,b"]
    decide
  have htags := hselects (fun _ _ => true) ["tag"] [("tag", .list ["a,b"])] (by decide) (by decide)
    (by rwa [forall_mem_singleton]) (by rwa [forall_mem_singleton])
  have hvalue : ∀ v ∈ ["a,b"], ',' ∉ v.toList := (@clean_of_selects _ _ ("tag", _) hname hspec htags).value
  exact absurd hvalue (by decide)

end GoErp.Shell
