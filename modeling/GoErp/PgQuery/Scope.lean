import GoErp.PgQuery.Node

/-!
# `PgQuery.Scope` — tables and functions module SQL may name

`dbscope/dbscope.go`: a walk over the whole parse tree that stops at the first table reference or function
call module SQL may not make. The tables are those of `enginetables.Groups`.

`DeniedTable` and `DeniedCall` say what is refused without the walk; `firstDenial_eq_none_iff` says that the walk finds
nothing exactly in the trees without either, at any depth.
-/

namespace GoErp.PgQuery

open Lib List

/-- An engine-owned table of every tenant schema. -/
structure EngineTable where
  name : String
  partitioned : Bool

def plainTable (name : String) : EngineTable := ⟨name, false⟩

/-- The tables of `enginetables.Groups`, in order. -/
def engineTables : List EngineTable :=
  ["roles", "role_permissions", "user_roles", "tenant_members", "tenant_invitations", "record_shares",
    "saved_filters", "view_overrides", "record_activity", "record_followers", "notifications",
    "notification_deliveries", "user_device_tokens", "notification_preferences", "notification_templates",
    "activity_types", "scheduled_activities", "files", "module_config", "cron_job_settings",
    "sequences"].map plainTable ++
  [⟨"audit_log", true⟩, ⟨"event_log", true⟩, ⟨"event_deliveries", true⟩]

def hasPre (pre name : String) : Bool := pre.toList.isPrefixOf name.toList

/-- The rest after a prefix. -/
def cutPre? (pre name : String) : Option (List Char) :=
  if hasPre pre name then some (name.toList.drop pre.toList.length) else none

/-- `^(p?[0-9][0-9_]*|default)$`. -/
def partitionSuffix (suffix : List Char) : Bool :=
  let digits : List Char → Bool
    | [] => false
    | c :: cs => c.isDigit && cs.all fun c => c.isDigit || c == '_'
  match suffix with
  | 'p' :: rest => digits rest
  | cs => digits cs || cs == "default".toList

/-- `IsEngineOwned`: a table of the engine, or a partition of one. -/
def IsEngineOwned (name : String) : Bool :=
  engineTables.any fun t => name == t.name ||
    match cutPre? (t.name ++ "_") name with
    | some suffix => t.partitioned && partitionSuffix suffix
    | none => false

def isSystemCatalogName (name : String) : Bool := hasPre "pg_" name

def isJobQueueTableName (name : String) : Bool := hasPre "river_" name

/-- The functions that take a query or the name of a table as text, and `set_config`. -/
def deniedFunctions : List String :=
  ["query_to_xml", "query_to_xmlschema", "query_to_xml_and_xmlschema", "cursor_to_xml", "cursor_to_xmlschema",
    "table_to_xml", "table_to_xmlschema", "table_to_xml_and_xmlschema", "schema_to_xml", "schema_to_xmlschema",
    "schema_to_xml_and_xmlschema", "database_to_xml", "database_to_xmlschema", "database_to_xml_and_xmlschema",
    "ts_stat", "ts_rewrite", "set_config"]

/-- Why a tree is refused. -/
inductive Denial where
  | qualifiedTable (schemaname relname : String)
  | systemCatalog (relname : String)
  | engineOwned (relname : String)
  | jobQueue (relname : String)
  | deniedFunction (name : String)
  deriving DecidableEq

/-- Why a table is refused: a schema, a catalogue's name, the job queue's or the engine's. -/
def rangeVarDenial (schemaname relname : String) : Option Denial :=
  if schemaname ≠ "" then some (.qualifiedTable schemaname relname)
  else if isSystemCatalogName relname then some (.systemCatalog relname)
  else if IsEngineOwned relname then some (.engineOwned relname)
  else if isJobQueueTableName relname then some (.jobQueue relname)
  else none

/-- The text of a `String` message; other messages have none. -/
def sval (n : Node) : String :=
  match n.label with
  | .string s => s
  | _ => ""

/-- Why a call is refused: the function's name is its last part. -/
def funcCallDenial (fc : Node) : Option Denial :=
  let parts := (fc.getAll .funcname).map sval
  match parts.reverse with
  | [] => none
  | name :: rest =>
    let qualified := match rest with
      | [] => false
      | schema :: _ => schema != "pg_catalog"
    if qualified || deniedFunctions.contains name then some (.deniedFunction (".".intercalate parts))
    else none

mutual

/-- `firstDenial`. A `RangeVar` is not descended into; a call that passes is. -/
def firstDenial : Node → Option Denial
  | .mk label children =>
    match label with
    | .rangeVar schemaname relname => rangeVarDenial schemaname relname
    | .funcCall =>
      match funcCallDenial (.mk .funcCall children) with
      | some d => some d
      | none => firstDenialList children
    | _ => firstDenialList children

def firstDenialList : List (Field × Node) → Option Denial
  | [] => none
  | (_, n) :: rest =>
    match firstDenial n with
    | some d => some d
    | none => firstDenialList rest

end

/-- `ValidateTreeTableRefs` -/
def ValidateTreeTableRefs (tree : ParseTree) : Option Denial := firstDenial tree.root

/-! ## What the walk finds -/

/-- An engine-owned table, or a partition of one. -/
def EngineOwned (name : String) : Prop :=
  ∃ t ∈ engineTables, name = t.name ∨
    t.partitioned = true ∧ ∃ suffix, name = t.name ++ "_" ++ suffix ∧ partitionSuffix suffix.toList = true

/-- The tables that a module may not name. -/
def DeniedTable (schemaname relname : String) : Prop :=
  schemaname ≠ "" ∨ (∃ rest, relname = "pg_" ++ rest) ∨ (∃ rest, relname = "river_" ++ rest) ∨ EngineOwned relname

/-- A call by the parts of its name: the function is the last, its schema stands before it. -/
def DeniedCall (parts : List String) : Prop :=
  (∃ name ∈ parts.getLast?, name ∈ deniedFunctions) ∨ ∃ schema ∈ parts.dropLast.getLast?, schema ≠ "pg_catalog"

/-- A `RangeVar` has one message field, its alias, and an alias has column names. -/
def RangeVarsTyped (t : Node) : Prop :=
  ∀ n ∈ t.nodes, ∀ schemaname relname, n.label = .rangeVar schemaname relname → ∀ x ∈ n.children, ∀ m ∈ x.2.nodes,
    (∃ name, m.label = .alias name) ∨ ∃ s, m.label = .string s

/-- The reference or the call that a message is may stand in module SQL. -/
def Clean (n : Node) : Prop :=
  (∀ schemaname relname, n.label = .rangeVar schemaname relname → ¬ DeniedTable schemaname relname) ∧
    (n.label = .funcCall → ¬ DeniedCall ((n.getAll .funcname).map sval))

theorem cutPre?_eq_some {pre name : String} {rest : List Char} :
    cutPre? pre name = some rest ↔ name = pre ++ String.ofList rest := by
  unfold cutPre? hasPre
  rw [← String.toList_inj, String.toList_append, String.toList_ofList]
  split
  · rename_i h
    obtain ⟨tail, htail⟩ := isPrefixOf_iff_prefix.mp h
    rw [Option.some.injEq, ← htail, drop_left, append_cancel_left_eq]
  rename_i h
  refine iff_of_false nofun fun heq => h ?_
  rw [heq]
  exact isPrefixOf_iff_prefix.mpr (prefix_append _ _)

theorem hasPre_iff {pre name : String} : hasPre pre name = true ↔ ∃ rest, name = pre ++ rest := by
  unfold hasPre
  rw [List.isPrefixOf_iff_prefix]
  constructor
  · rintro ⟨tail, htail⟩
    exact ⟨String.ofList tail, String.toList_inj.mp (by rw [String.toList_append, String.toList_ofList, htail])⟩
  · rintro ⟨rest, rfl⟩
    exact ⟨rest.toList, (String.toList_append ..).symm⟩

/-- The test is exact. -/
theorem isEngineOwned_iff {name : String} : IsEngineOwned name = true ↔ EngineOwned name := by
  unfold IsEngineOwned EngineOwned
  rw [List.any_eq_true]
  refine exists_congr fun t => and_congr_right fun _ => ?_
  rw [Bool.or_eq_true, beq_iff_eq]
  refine or_congr_right ?_
  constructor
  · intro h
    split at h
    · rename_i rest hrest
      rw [Bool.and_eq_true] at h
      refine ⟨h.1, String.ofList rest, cutPre?_eq_some.mp hrest, ?_⟩
      rw [String.toList_ofList]
      exact h.2
    · cases h
  · rintro ⟨hpart, suffix, hname, hsuffix⟩
    have hcut : cutPre? (t.name ++ "_") name = some suffix.toList := by
      rw [cutPre?_eq_some, String.ofList_toList]
      exact hname
    rw [hcut, hpart]
    exact hsuffix

/-- A table is let through exactly if it is none of those. -/
theorem rangeVarDenial_eq_none {schemaname relname : String} :
    rangeVarDenial schemaname relname = none ↔ ¬ DeniedTable schemaname relname := by
  unfold rangeVarDenial DeniedTable isSystemCatalogName isJobQueueTableName
  rw [← hasPre_iff, ← hasPre_iff, ← isEngineOwned_iff]
  grind

theorem funcCallDenial_eq_none {fc : Node} :
    funcCallDenial fc = none ↔ ¬ DeniedCall ((fc.getAll .funcname).map sval) := by
  unfold funcCallDenial DeniedCall
  generalize (fc.getAll .funcname).map sval = parts
  obtain ⟨rev, rfl⟩ : ∃ rev, parts = rev.reverse := ⟨parts.reverse, (reverse_reverse _).symm⟩
  dsimp only
  match rev with
  | [] => simp
  | [name] => simp
  | name :: schema :: rest => simp [and_comm]

theorem firstDenialList_eq_none {cs : List (Field × Node)} :
    firstDenialList cs = none ↔ ∀ x ∈ cs, firstDenial x.2 = none := by
  induction cs with
  | nil => simp [firstDenialList]
  | cons x xs ih =>
    rw [firstDenialList, forall_mem_cons, ← ih]
    cases firstDenial x.2 <;> simp

/-- **The walk passes exactly the trees in which every reference and every call is allowed.** -/
theorem firstDenial_eq_none_iff (t : Node) (htyped : RangeVarsTyped t) :
    firstDenial t = none ↔ ∀ n ∈ t.nodes, Clean n := by
  induction t using Tree.induct with
  | node l cs ih =>
    have hchildren : firstDenialList cs = none ↔ ∀ x ∈ cs, ∀ n ∈ x.2.nodes, Clean n := by
      rw [firstDenialList_eq_none]
      refine forall₂_congr fun x hx => ih x hx fun n hn => htyped n ?_
      exact Tree.mem_nodes_mk.mpr (.inr ⟨x, hx, hn⟩)
    have hsplit : (∀ n ∈ Tree.nodes (.mk l cs), Clean n) ↔ Clean (.mk l cs) ∧ ∀ x ∈ cs, ∀ n ∈ x.2.nodes, Clean n := by
      simp only [Tree.mem_nodes_mk, or_imp, forall_and, forall_eq, forall_exists_index, and_imp]
      exact and_congr_right fun _ => ⟨fun h x hx n hn => h n x hx hn, fun h n x hx hn => h x hx n hn⟩
    rw [hsplit, firstDenial.eq_def]
    dsimp only
    split
    · -- nothing below a `RangeVar` is looked at, and nothing there can be refused
      rename_i schemaname relname
      have hbelow : ∀ x ∈ cs, ∀ n ∈ x.2.nodes, Clean n := by
        intro x hx n hn
        rcases htyped _ (Tree.mem_nodes_self _) schemaname relname rfl x hx n hn with ⟨a, ha⟩ | ⟨a, ha⟩
        all_goals exact ⟨fun _ _ h => (nomatch ha.symm.trans h), fun h => (nomatch ha.symm.trans h)⟩
      rw [rangeVarDenial_eq_none]
      constructor
      · intro h
        refine ⟨⟨fun s r heq => ?_, fun heq => (nomatch heq)⟩, hbelow⟩
        cases heq
        exact h
      · intro h
        exact h.1.1 schemaname relname rfl
    · have hclean : Clean (.mk .funcCall cs) ↔ funcCallDenial (.mk .funcCall cs) = none := by
        rw [funcCallDenial_eq_none]
        exact ⟨fun h => h.2 rfl, fun h => ⟨fun _ _ heq => (nomatch heq), fun _ => h⟩⟩
      rw [hclean, ← hchildren]
      cases funcCallDenial (.mk .funcCall cs) <;> simp
    rename_i hrange hcall
    have hclean : Clean (.mk l cs) := ⟨fun s r heq => absurd heq (hrange s r), fun heq => absurd heq hcall⟩
    rw [hchildren]
    exact (and_iff_right hclean).symm

/-- `SELECT upper(name) FROM contacts AS c`. -/
def selectContacts : Node :=
  .mk .selectStmt
    [(.targetList, .mk (.resTarget "") [(.val, .mk .funcCall [(.funcname, .mk (.string "upper") []),
        (.args, .mk .columnRef [(.fields, .mk (.string "name") [])])])]),
      (.fromClause, .mk (.rangeVar "" "contacts") [(.alias, .mk (.alias "c") [])])]

theorem rangeVarsTyped_selectContacts : RangeVarsTyped selectContacts := by
  simp [RangeVarsTyped, selectContacts, Tree.nodes, Tree.nodesList, Tree.label, Tree.children]

theorem firstDenial_selectContacts : firstDenial selectContacts = none ∧ ∀ n ∈ selectContacts.nodes, Clean n := by
  have hnone : firstDenial selectContacts = none := by decide
  exact ⟨hnone, (firstDenial_eq_none_iff selectContacts rangeVarsTyped_selectContacts).mp hnone⟩

end GoErp.PgQuery
