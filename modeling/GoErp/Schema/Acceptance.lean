import GoErp.Lib.Separator

/-!
# `Schema.Acceptance` — blocked schema changes and the hash an operator accepts

`classifyChanges` (`schema/classify.go`) blocks the changes that may lose data; an operator accepts a blocked change
by the hash of its textual description (`ExecuteAccepted`, `schema/apply.go`). The description names the kind, the
table and the object, and of the attributes of a column only `Type.Raw`, which is empty for a column built from a
declaration.

For names without separators the text determines `Described` (`described_of_describeChange`), so an acceptance is
sound exactly for changes that do not differ in their clauses alone.
-/

namespace GoErp.Schema

open Lib

/-! ## Atlas changes -/

/-- The column types the classification tells apart. -/
inductive ColType where
  | string (t : String) (size : Nat)
  | integer (t : String)
  | decimal (precision scale : Nat)
  | other (t : String)
deriving DecidableEq, Repr

structure ColumnType where
  /-- the type as the database reports it; empty for a declared column -/
  raw : String
  type : ColType
  null : Bool
deriving DecidableEq, Repr

structure Column where
  name : String
  type : ColumnType
  default : Option String
  generated : Option String
deriving DecidableEq, Repr

structure Table where
  name : String
deriving DecidableEq, Repr

structure Index where
  name : String
  parts : List String
  unique : Bool
deriving DecidableEq, Repr

structure ForeignKey where
  symbol : String
  columns : List String
  refTable : String
  refColumns : List String
  onUpdate : String
  onDelete : String
deriving DecidableEq, Repr

structure Check where
  name : String
  expr : String
deriving DecidableEq, Repr

/-- The bits of `schema.ChangeKind` that concern a column. -/
structure ChangeKind where
  type : Bool
  null : Bool
  default : Bool
  generated : Bool
deriving DecidableEq, Repr

/-- The changes that Atlas reports. -/
inductive Change where
  | addTable (t : Table) (columns : List Column)
  | dropTable (t : Table)
  | renameTable (source target : Table)
  | addIndex (i : Index)
  | dropIndex (i : Index)
  | addCheck (c : Check)
  | addForeignKey (f : ForeignKey)
  | addColumn (c : Column)
  | modifyColumn (source target : Column) (change : ChangeKind)
  | dropColumn (c : Column)
  | renameColumn (source target : Column)
  /-- any other change, by the name of its Go type -/
  | other (goType : String)
deriving DecidableEq, Repr

/-- A change of the schema: of one table, or on its own. -/
inductive SchemaChange where
  | modifyTable (t : Table) (changes : List Change)
  | change (c : Change)

/-- A change with the table it belongs to. -/
structure TableChange where
  table : Option Table
  change : Change
deriving DecidableEq, Repr

/-- The name of the table a change belongs to, empty without one. -/
def tableName (t : Option Table) : String := (t.map (·.name)).getD ""

/-- `explodeChanges`: the changes of a modified table one by one. -/
def explodeChanges (changes : List SchemaChange) : List TableChange :=
  changes.flatMap fun
    | .modifyTable t inner => inner.map fun c => ⟨some t, c⟩
    | .change c => [⟨none, c⟩]

/-! ## Classification -/

/-- The integer types by size. -/
def integerRank (t : String) : Int :=
  if t = "smallint" ∨ t = "int2" then 0
  else if t = "integer" ∨ t = "int" ∨ t = "int4" then 1
  else if t = "bigint" ∨ t = "int8" then 2
  else -1

/-- `isWideningTypeChange` -/
def isWideningTypeChange : (source target : ColType) → Bool
  | .string t size, .string t' size' => t' = "text" || (t' = t && size ≤ size')
  | .integer t, .integer t' => 0 ≤ integerRank t && integerRank t ≤ integerRank t'
  | .decimal p s, .decimal p' s' => s' = s && p ≤ p'
  | _, _ => false

/-- The rows that exist get NULL or the default. -/
def isSafeAddColumn (c : Column) : Bool := c.type.null || c.default.isSome

/-- `isSafeModifyColumn`: no generated column, no new `NOT NULL`, and a type that is widened at most. -/
def isSafeModifyColumn (source target : Column) (change : ChangeKind) : Bool :=
  if change.generated then false
  else if change.null && source.type.null && !target.type.null then false
  else if change.type && !isWideningTypeChange source.type.type target.type.type then false
  else true

inductive Bucket where
  | safe
  | deferred
  | blocked
deriving DecidableEq, Repr

/-- What becomes of a change: applied, applied later, or blocked. -/
def Change.bucket : Change → Bucket
  | .addTable .. | .addIndex _ | .dropIndex _ => .safe
  | .addCheck _ | .addForeignKey _ => .deferred
  | .addColumn c => if isSafeAddColumn c then .safe else .blocked
  | .modifyColumn source target change => if isSafeModifyColumn source target change then .safe else .blocked
  | .dropColumn _ | .dropTable _ | .renameColumn .. | .renameTable .. => .blocked
  | .other _ => .safe

/-- `classifyChanges` -/
def classifyChanges (changes : List SchemaChange) : List TableChange × List TableChange × List TableChange :=
  let tcs := explodeChanges changes
  (tcs.filter (·.change.bucket = .safe), tcs.filter (·.change.bucket = .deferred),
    tcs.filter (·.change.bucket = .blocked))

/-! ## Description and hash -/

/-- The kind, the table and the detail. -/
def describeChange (tc : TableChange) : String × String × String :=
  let table := tableName tc.table
  match tc.change with
  | .addTable t _ => ("add_table", t.name, "")
  | .dropTable t => ("drop_table", t.name, "")
  | .renameTable source target => ("rename_table", source.name, "-> " ++ target.name)
  | .addIndex i => ("add_index", table, i.name)
  | .dropIndex i => ("drop_index", table, i.name)
  | .addCheck c => ("add_check", table, c.name)
  | .addForeignKey f => ("add_foreign_key", table, f.symbol)
  | .addColumn c => ("add_column", table, c.name ++ " " ++ c.type.raw)
  | .modifyColumn source target _ =>
    ("modify_column", table, target.name ++ ": " ++ (source.type.raw ++ " -> " ++ target.type.raw))
  | .dropColumn c => ("drop_column", table, c.name)
  | .renameColumn source target => ("rename_column", table, source.name ++ " -> " ++ target.name)
  | .other goType => (goType, table, "")

section

-- SHA-256 in hexadecimal digits
variable (sha256 : String → String)

/-- `changeHash`: the digest of the description. -/
def changeHash (tc : TableChange) : String :=
  let (kind, table, detail) := describeChange tc
  sha256 (kind ++ "|" ++ (table ++ "|" ++ detail))

/-- What a run applies and what it leaves blocked. -/
structure Executed where
  /-- the safe and the accepted changes, then the deferred ones -/
  applied : List TableChange
  blocked : List TableChange
  appliedHashes : List String

/-- `executeAccepted`: the blocked changes whose hash was accepted are applied too. -/
def executeAccepted (changes : List SchemaChange) (accepted : String → Bool) : Executed :=
  let (safe, deferred, blocked) := classifyChanges changes
  let consented := blocked.filter fun tc => accepted (changeHash sha256 tc)
  { applied := safe ++ consented ++ deferred
    blocked := blocked.filter fun tc => !accepted (changeHash sha256 tc)
    appliedHashes := consented.map (changeHash sha256) }

end

/-! ## What a change does -/

/-- A clause of the statement that a change is turned into. -/
inductive Clause where
  | type (t : ColType)
  | null (n : Bool)
  | default (e : Option String)
  | generated (e : Option String)
  | renameTo (name : String)
deriving DecidableEq, Repr

/-- The clauses of a blocked change: the attributes of a new column, the altered ones of an old column. -/
def TableChange.clauses (tc : TableChange) : List Clause :=
  match tc.change with
  | .addColumn c => [.type c.type.type, .null c.type.null, .default c.default, .generated c.generated]
  | .modifyColumn _ target change =>
    (if change.type then [.type target.type.type] else []) ++
      (if change.null then [.null target.type.null] else []) ++
      (if change.default then [.default target.default] else []) ++
      if change.generated then [.generated target.generated] else []
  | .renameTable _ target => [.renameTo target.name]
  | .renameColumn _ target => [.renameTo target.name]
  | _ => []

/-- A statement, as far as two of them can differ. -/
structure Ddl where
  kind : String
  table : String
  object : String
  clauses : List Clause
deriving DecidableEq, Repr

/-- The object a change names: the column, or nothing where the table is the object. -/
def TableChange.object (tc : TableChange) : String :=
  match tc.change with
  | .addColumn c | .dropColumn c => c.name
  | .modifyColumn _ target _ => target.name
  | .renameColumn source _ => source.name
  | _ => ""

/-- The statement of a blocked change. -/
def TableChange.ddl (tc : TableChange) : Ddl where
  kind := (describeChange tc).1
  table := (describeChange tc).2.1
  object := tc.object
  clauses := tc.clauses

/-- What the description of a blocked change says. -/
inductive Described where
  | dropTable (table : String)
  | renameTable (table target : String)
  | addColumn (table name raw : String)
  | modifyColumn (table name raw raw' : String)
  | dropColumn (table name : String)
  | renameColumn (table name target : String)
  /-- a change that is never blocked -/
  | unblocked
deriving DecidableEq, Repr

/-- What a description says, before it is printed. -/
def TableChange.described (tc : TableChange) : Described :=
  let table := tableName tc.table
  match tc.change with
  | .dropTable t => .dropTable t.name
  | .renameTable source target => .renameTable source.name target.name
  | .addColumn c => .addColumn table c.name c.type.raw
  | .modifyColumn source target _ => .modifyColumn table target.name source.type.raw target.type.raw
  | .dropColumn c => .dropColumn table c.name
  | .renameColumn source target => .renameColumn table source.name target.name
  | _ => .unblocked

/-! ## Reading a description back -/

/-- A name without the characters the description uses between its parts. -/
def plainName (s : String) : Bool := s.toList.all fun c => c != '|' && c != ':' && c != ' ' && c != '>'

/-- The names of the change are plain, and the reported type has no arrow in it. -/
def TableChange.Plain (tc : TableChange) : Prop :=
  plainName (tableName tc.table) = true ∧
  match tc.change with
  | .dropTable t => plainName t.name = true
  | .renameTable source target => plainName source.name = true ∧ plainName target.name = true
  | .addColumn c => plainName c.name = true
  | .modifyColumn source target _ => plainName target.name = true ∧ '>' ∉ source.type.raw.toList
  | .renameColumn source _ => plainName source.name = true
  | _ => True

instance (tc : TableChange) : Decidable tc.Plain := by
  unfold TableChange.Plain
  cases tc.change <;> infer_instance

/-- A plain name holds no separator of a description. -/
theorem notMem_of_plainName {s : String} (h : plainName s = true) :
    '|' ∉ s.toList ∧ ':' ∉ s.toList ∧ ' ' ∉ s.toList ∧ '>' ∉ s.toList := by
  simp only [plainName, List.all_eq_true, Bool.and_eq_true, bne_iff_ne, ne_eq] at h
  refine ⟨?_, ?_, ?_, ?_⟩ <;> intro hc <;> have := h _ hc <;> simp at this

variable {tc : TableChange}

theorem describeChange_kind (hb : tc.change.bucket = .blocked) : '|' ∉ (describeChange tc).1.toList := by
  obtain ⟨table, change⟩ := tc
  cases change <;> first | (simp [Change.bucket] at hb; done) | simp [describeChange]

theorem describeChange_table (hb : tc.change.bucket = .blocked) (hp : tc.Plain) :
    '|' ∉ (describeChange tc).2.1.toList := by
  obtain ⟨table, change⟩ := tc
  obtain ⟨ht, hc⟩ := hp
  cases change with
  | dropTable t => exact (notMem_of_plainName hc).1
  | renameTable source target => exact (notMem_of_plainName hc.1).1
  | addColumn c => exact (notMem_of_plainName ht).1
  | modifyColumn source target change => exact (notMem_of_plainName ht).1
  | dropColumn c => exact (notMem_of_plainName ht).1
  | renameColumn source target => exact (notMem_of_plainName ht).1
  | addTable t columns => simp [Change.bucket] at hb
  | addIndex i => simp [Change.bucket] at hb
  | dropIndex i => simp [Change.bucket] at hb
  | addCheck c => simp [Change.bucket] at hb
  | addForeignKey f => simp [Change.bucket] at hb
  | other goType => simp [Change.bucket] at hb

section

variable {c₂ c₁ : TableChange} (hb₁ : c₁.change.bucket = .blocked) (hb₂ : c₂.change.bucket = .blocked)

include hb₁ hb₂

/-- Equal details say the same, for two changes of one kind. -/
theorem described_of_describeChange (hp₁ : c₁.Plain) (hp₂ : c₂.Plain) (h : describeChange c₁ = describeChange c₂) :
    c₁.described = c₂.described := by
  obtain ⟨t₁, d₁⟩ := c₁
  obtain ⟨t₂, d₂⟩ := c₂
  obtain ⟨-, hc₁⟩ := hp₁
  obtain ⟨-, hc₂⟩ := hp₂
  obtain ⟨hkind, hrest⟩ := Prod.mk.inj h
  obtain ⟨htable, hdetail⟩ := Prod.mk.inj hrest
  -- the kinds are different strings, so the two changes are of one kind; the unblocked ones are no case
  cases d₁ <;> cases d₂ <;>
    first
    | (exfalso; simp only [Change.bucket, reduceCtorEq] at hb₁; done)
    | (exfalso; simp only [Change.bucket, reduceCtorEq] at hb₂; done)
    | (exfalso; simp only [String.reduceEq] at hkind; done)
    | skip
  case dropTable.dropTable s₁ s₂ => exact congrArg Described.dropTable htable
  case renameTable.renameTable f₁ s₁ f₂ s₂ =>
    have hname : s₁.name = s₂.name := by
      apply String.toList_inj.mp
      simpa [String.toList_append] using congrArg String.toList hdetail
    exact congrArg₂ Described.renameTable htable hname
  case addColumn.addColumn s₁ s₂ =>
    obtain ⟨hname, hraw⟩ := join_inj ' ' [] [] rfl (by simp)
      (notMem_of_plainName hc₁).2.2.1 (notMem_of_plainName hc₂).2.2.1 hdetail
    show Described.addColumn (tableName t₁) s₁.name s₁.type.raw = .addColumn (tableName t₂) s₂.name s₂.type.raw
    rw [show tableName t₁ = tableName t₂ from htable, hname, hraw]
  case modifyColumn.modifyColumn f₁ s₁ k₁ f₂ s₂ k₂ =>
    obtain ⟨hname, htypes⟩ := join_inj ':' [] [' '] rfl (by simp)
      (notMem_of_plainName hc₁.1).2.1 (notMem_of_plainName hc₂.1).2.1 hdetail
    obtain ⟨hraw, hraw'⟩ := join_inj '>' [' ', '-'] [' '] rfl (by simp)
      hc₁.2 hc₂.2 htypes
    show Described.modifyColumn (tableName t₁) s₁.name f₁.type.raw s₁.type.raw =
      .modifyColumn (tableName t₂) s₂.name f₂.type.raw s₂.type.raw
    rw [show tableName t₁ = tableName t₂ from htable, hname, hraw, hraw']
  case dropColumn.dropColumn s₁ s₂ => exact congrArg₂ Described.dropColumn htable hdetail
  case renameColumn.renameColumn f₁ s₁ f₂ s₂ =>
    obtain ⟨hname, htarget⟩ := join_inj '>' [' ', '-'] [' '] rfl (by simp)
      (notMem_of_plainName hc₁).2.2.2 (notMem_of_plainName hc₂).2.2.2 hdetail
    show Described.renameColumn (tableName t₁) f₁.name s₁.name = .renameColumn (tableName t₂) f₂.name s₂.name
    rw [show tableName t₁ = tableName t₂ from htable, hname, htarget]

/-- What a blocked change says fixes its description, and its statement but for the clauses. -/
theorem describeChange_of_described (h : c₁.described = c₂.described) :
    describeChange c₁ = describeChange c₂ ∧ c₁.object = c₂.object := by
  obtain ⟨t₁, d₁⟩ := c₁
  obtain ⟨t₂, d₂⟩ := c₂
  cases d₁ <;> cases d₂ <;>
    first
    | (exfalso; simp only [Change.bucket, reduceCtorEq] at hb₁; done)
    | (exfalso; simp only [Change.bucket, reduceCtorEq] at hb₂; done)
    | (exfalso; simp only [TableChange.described, reduceCtorEq] at h; done)
    | (simp only [TableChange.described, Described.dropTable.injEq, Described.renameTable.injEq,
        Described.addColumn.injEq, Described.modifyColumn.injEq, Described.dropColumn.injEq,
        Described.renameColumn.injEq] at h
       simp only [describeChange, TableChange.object, h, and_self])

/-- Two blocked changes with plain names have one hash exactly if their descriptions say the same. -/
theorem changeHash_eq_iff {sha256 : String → String} (hsha : Function.Injective sha256)
    (hp₁ : c₁.Plain) (hp₂ : c₂.Plain) :
    changeHash sha256 c₁ = changeHash sha256 c₂ ↔ c₁.described = c₂.described := by
  constructor
  · intro h
    obtain ⟨hkind, hrest⟩ := join_inj '|' [] [] rfl (by simp)
      (describeChange_kind hb₁) (describeChange_kind hb₂) (hsha h)
    obtain ⟨htable, hdetail⟩ := join_inj '|' [] [] rfl (by simp)
      (describeChange_table hb₁ hp₁) (describeChange_table hb₂ hp₂) hrest
    exact described_of_describeChange hb₁ hb₂ hp₁ hp₂ (Prod.ext hkind (Prod.ext htable hdetail))
  · intro h
    unfold changeHash
    rw [(describeChange_of_described hb₁ hb₂ h).1]

/-- Two changes with one description differ in their clauses at most. -/
theorem ddl_eq_iff (h : c₁.described = c₂.described) : c₁.ddl = c₂.ddl ↔ c₁.clauses = c₂.clauses := by
  obtain ⟨hd, ho⟩ := describeChange_of_described hb₁ hb₂ h
  simp only [TableChange.ddl, hd, ho, Ddl.mk.injEq, true_and]

end

/-! ## What an acceptance authorises -/

/-- The two changes do not differ in the clauses alone. -/
def SameClauses (c₁ c₂ : TableChange) : Prop := c₁.described = c₂.described → c₁.clauses = c₂.clauses

/-- The changes whose acceptance `executeAccepted` was given. -/
def hashesOf (sha256 : String → String) (accepted : List TableChange) (hash : String) : Bool :=
  accepted.any fun tc => changeHash sha256 tc = hash

theorem mem_executeAccepted {sha256 : String → String} {changes : List SchemaChange} {accepted : String → Bool}
    (h : tc ∈ (executeAccepted sha256 changes accepted).applied)
    (hb : tc.change.bucket = .blocked) : accepted (changeHash sha256 tc) = true := by
  simp only [executeAccepted, classifyChanges, List.mem_append, List.mem_filter, decide_eq_true_eq] at h
  rcases h with (⟨-, hsafe⟩ | ⟨-, hacc⟩) | ⟨-, hdef⟩
  · exact absurd (hb.symm.trans hsafe) (by decide)
  · exact hacc
  · exact absurd (hb.symm.trans hdef) (by decide)

/-- **An acceptance authorises only its change**: for blocked changes with plain names, one hash means one statement
exactly if the changes do not differ in their clauses alone; and then `executeAccepted` applies a blocked change only
if its statement was accepted. -/
theorem acceptance_authorises_iff (sha256 : String → String) (hsha : Function.Injective sha256)
    (c₁ c₂ : TableChange) (hb₁ : c₁.change.bucket = .blocked) (hb₂ : c₂.change.bucket = .blocked)
    (hp₁ : c₁.Plain) (hp₂ : c₂.Plain) :
    ((changeHash sha256 c₁ = changeHash sha256 c₂ → c₁.ddl = c₂.ddl) ↔ SameClauses c₁ c₂) ∧
      ∀ (changes : List SchemaChange) (accepted : List TableChange),
        c₁ ∈ (executeAccepted sha256 changes (hashesOf sha256 accepted)).applied →
        (∀ a ∈ accepted, a.change.bucket = .blocked ∧ a.Plain ∧ SameClauses a c₁) →
        ∃ a ∈ accepted, a.ddl = c₁.ddl := by
  constructor
  · constructor
    · intro h hd
      exact (ddl_eq_iff hb₁ hb₂ hd).mp (h ((changeHash_eq_iff hb₁ hb₂ hsha hp₁ hp₂).mpr hd))
    intro h hhash
    have hd := (changeHash_eq_iff hb₁ hb₂ hsha hp₁ hp₂).mp hhash
    exact (ddl_eq_iff hb₁ hb₂ hd).mpr (h hd)
  · intro changes accepted happlied hall
    have hacc := mem_executeAccepted happlied hb₁
    obtain ⟨a, ha, hhash⟩ := List.any_eq_true.mp hacc
    obtain ⟨hba, hpa, hsame⟩ := hall a ha
    have hd := (changeHash_eq_iff hba hb₁ hsha hpa hp₁).mp (by simpa using hhash)
    exact ⟨a, ha, (ddl_eq_iff hba hb₁ hd).mpr (hsame hd)⟩

def ordersTable : Table := ⟨"orders"⟩

/-- The column as the database has it, and as a declaration has it. -/
def liveCode : Column := ⟨"code", ⟨"character varying", .string "character varying" 100, true⟩, none, none⟩
def declaredCode (type : ColType) : Column := ⟨"code", ⟨"", type, true⟩, none, none⟩

/-- `ALTER COLUMN code TYPE …` -/
def retype (type : ColType) : TableChange :=
  ⟨some ordersTable, .modifyColumn liveCode (declaredCode type) ⟨true, false, false, false⟩⟩

def dropCode : TableChange := ⟨some ordersTable, .dropColumn liveCode⟩

def dropTotal : TableChange := ⟨some ordersTable, .dropColumn { liveCode with name := "total" }⟩

/-- Two columns are to be dropped; one of the drops has been accepted, and a retyping that is not asked for. -/
theorem acceptance_authorises_drop :
    let changes := [.modifyTable ordersTable [dropCode.change, dropTotal.change]]
    let accepted := [retype (.integer "integer"), dropCode]
    (changeHash id dropCode = changeHash id dropTotal → dropCode.ddl = dropTotal.ddl) ∧
      dropTotal ∉ (executeAccepted id changes (hashesOf id accepted)).applied ∧
      ∃ a ∈ accepted, a.ddl = dropCode.ddl := by
  have h := acceptance_authorises_iff id Function.injective_id dropCode dropTotal (by decide) (by decide) (by decide)
    (by decide)
  refine ⟨h.1.mpr fun hd => absurd hd (by decide), by decide, ?_⟩
  refine h.2 [.modifyTable ordersTable [dropCode.change, dropTotal.change]] _ (by decide) fun a ha => ?_
  rcases List.mem_pair.mp ha with rfl | rfl
  · exact ⟨by decide, by decide, fun hd => absurd hd (by decide)⟩
  · exact ⟨by decide, by decide, fun _ => rfl⟩

/-- Shortening the column and turning it into an integer are described alike: the declared type has no `Raw`. -/
theorem acceptance_retypes : ¬ ∀ (sha256 : String → String), Function.Injective sha256 → ∀ c₁ c₂ : TableChange,
      c₁.change.bucket = .blocked → c₂.change.bucket = .blocked →
      changeHash sha256 c₁ = changeHash sha256 c₂ → c₁.ddl = c₂.ddl := by
  intro h
  have := h id Function.injective_id (retype (.string "character varying" 50)) (retype (.integer "integer"))
    (by decide) (by decide) (by decide)
  revert this
  decide

end GoErp.Schema
