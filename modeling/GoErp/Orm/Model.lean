import GoErp.Lib.Except
import GoErp.Lib.Table

/-!
# `Orm.Model` — model declarations, records and assignments

What the ORM's writes read of a model declaration (`sdk/go/model`), the records callers hand in, and the checks a
record passes before any SQL: `validateWriteFields`, `fillCreateServerFields`, `acquireSequenceFields` and
`buildAssignment` (`wasm/host_orm_write.go`). A stored row is a function from columns to values.
-/

namespace GoErp.Orm

open Lib

/-! ## Declarations -/

inductive FieldKind where
  | char | text | integer | bigInt | float | decimal | boolean | uuid | timestampTZ | date | time | jsonb | bytea
  | selection | enum | many2One | sequence | dynamicLink | one2Many | many2Many | file | fileMulti | delegate
  deriving DecidableEq

/-- `modelmeta.IsJoinRelation`. -/
def FieldKind.isJoinRelation (kind : FieldKind) : Bool := kind = .many2Many || kind = .fileMulti

inductive OnDeleteBehaviour where
  | restrict | setNull | cascade
  deriving DecidableEq

/-- A value of a record or of a column. -/
inductive Value where
  | null
  | bool (b : Bool)
  | int (i : Int)
  | text (s : String)
  /-- an array, by its texts; `none` is an item that is no text -/
  | list (items : List (Option String))
  /-- an `ltree`, by its labels -/
  | ltree (labels : List String)
  deriving DecidableEq

/-- `model.NamedField`. -/
structure Field where
  name : String
  kind : FieldKind := .char
  selectionValues : List String := []
  isRequired : Bool := false
  isReadonly : Bool := false
  isPrimaryKey : Bool := false
  /-- the value of `DEFAULT`, if one is declared -/
  defaultExpr : Option Value := none
  relationOnDelete : OnDeleteBehaviour := .restrict
  isTree : Bool := false
  isComputed : Bool := false

structure Model where
  name : String
  fields : List Field
  /-- the columns of each unique index -/
  uniqueIndexes : List (List String) := []

def Model.hasField (md : Model) (name : String) : Bool := md.fields.any fun f => f.name = name

/-- The first primary key field; of a composite key only that one. -/
def Model.primaryKeyColumn (md : Model) : Option String := (md.fields.find? fun f => f.isPrimaryKey).map Field.name

/-- The names of the `.Tree()` fields. -/
def Model.treeFields (md : Model) : List String := (md.fields.filter fun f => f.isTree).map Field.name

/-- The engine-managed companion column of a tree field. -/
def pathCol (f : String) : String := f ++ "_path"

/-! ## Records and rows -/

/-- `map[string]any`: of two entries of one name the first counts. -/
abbrev Record := List (String × Value)

namespace Record

/-- The value of a record's field. -/
def get? (r : Record) (k : String) : Option Value := (r.find? fun x => x.1 = k).map Prod.snd

/-- A record with one field set. -/
def set (r : Record) (k : String) (v : Value) : Record := (k, v) :: r.filter fun x => x.1 ≠ k

theorem get?_cons (x : String × Value) (r : Record) (k : String) :
    get? (x :: r) k = if x.1 = k then some x.2 else get? r k := by
  unfold get?
  by_cases h : x.1 = k
  · simp [h]
  · simp [h]

/-- A record without the fields that a condition excludes. -/
theorem get?_filter (p : String → Bool) (r : Record) (k : String) :
    get? (r.filter fun x => p x.1) k = if p k = true then get? r k else none := by
  induction r with
  | nil => simp [get?]
  | cons x r ih =>
    rw [List.filter_cons]
    by_cases hx : p x.1 = true
    · rw [if_pos hx, get?_cons, ih, get?_cons]
      by_cases hk : x.1 = k
      · rw [if_pos hk, if_pos hk, if_pos (hk ▸ hx)]
      · rw [if_neg hk, if_neg hk]
    rw [if_neg hx, ih, get?_cons]
    by_cases hk : x.1 = k
    · rw [if_neg (hk ▸ hx), if_neg (hk ▸ hx)]
    · rw [if_neg hk]

@[simp] theorem get?_set_self (r : Record) (k : String) (v : Value) : get? (set r k v) k = some v := by
  rw [set, get?_cons, if_pos rfl]

theorem get?_set_of_ne {r : Record} {k k' : String} (v : Value) (h : k' ≠ k) : get? (set r k v) k' = get? r k' := by
  rw [set, get?_cons, if_neg (Ne.symm h), get?_filter fun x => x ≠ k, if_pos (by simpa using h)]

end Record

/-- A stored row, by column. -/
abbrev Row := String → Value

/-- A row with one column set. -/
def Row.set (r : Row) (c : String) (v : Value) : Row := fun c' => if c' = c then v else r c'

@[simp] theorem Row.set_self (r : Row) (c : String) (v : Value) : r.set c v c = v := if_pos rfl

theorem Row.set_of_ne (r : Row) {c c' : String} (v : Value) (h : c' ≠ c) : r.set c v c' = r c' := if_neg h

/-! ## Checks before SQL -/

inductive ErrorCode where
  | validationFailed | fieldNotWritable | fieldWriteDenied | notFound | etagMismatch | uniqueViolation
  | foreignKeyViolation | conflictTargetInvalid | cycleDetected | unavailable
  deriving DecidableEq

/-- `abiv1.HostError`; `field` is the entry of its details. -/
structure HostError where
  code : ErrorCode
  message : String
  field : Option String := none

/-- The error for an id that has no active row. -/
def notFoundError : HostError := ⟨.notFound, "record not found", none⟩

/-- An error that Postgres reports. -/
def sqlError (message : String) : HostError := ⟨.unavailable, message, none⟩

/-- What becomes of a write without the permission. -/
inductive DeniedWrite where
  | reject | ignore
  deriving DecidableEq

structure SecurityRule where
  writePermission : String
  onDeniedWrite : DeniedWrite

/-- `writeDeniedBy`, for one caller and model: the rule of a field the caller may not write. -/
abbrev Denials := String → Option SecurityRule

def selectionError (f : Field) : HostError :=
  ⟨.validationFailed, "field " ++ f.name ++ " must be one of " ++ ", ".intercalate f.selectionValues, some f.name⟩

def requiredError (f : Field) : HostError :=
  ⟨.validationFailed, "field " ++ f.name ++ " is required", some f.name⟩

/-- `validateSelectionFields`, for one field. -/
def validateSelection (f : Field) (record : Record) : Except HostError Unit :=
  match f.kind, record.get? f.name with
  | .selection, some .null => .ok ()
  | .selection, some (.text s) => if s ∈ f.selectionValues then .ok () else .error (selectionError f)
  | .selection, some _ => .error (selectionError f)
  | _, _ => .ok ()

/-- `validateRequiredFields`, for one field; a create needs every field without a default. -/
def validateRequired (f : Field) (record : Record) (requireAll : Bool) : Except HostError Unit :=
  if f.isRequired then
    match record.get? f.name with
    | none => if f.defaultExpr.isNone && requireAll then .error (requiredError f) else .ok ()
    | some .null => .error (requiredError f)
    | some _ => .ok ()
  else .ok ()

def validateFields (record : Record) (requireAll : Bool) : List Field → Except HostError Unit
  | [] => .ok ()
  | f :: fs => do
    validateSelection f record
    validateRequired f record requireAll
    validateFields record requireAll fs

def validateWriteFields (md : Model) (record : Record) (requireAll : Bool) : Except HostError Unit :=
  validateFields record requireAll md.fields

/-- What is known of the request: the tenant, and the caller if its id is a UUID. -/
structure RequestIds where
  tenantID : String
  userID : Option String

/-- A field that the server fills in, unless the record has a value for it. -/
def fillIfOmitted (md : Model) (field value : String) (x : Record × List String) : Record × List String :=
  if value = "" ∨ md.hasField field = false then x
  else match x.1.get? field with
    | none => (x.1.set field (.text value), field :: x.2)
    | some .null => (x.1.set field (.text value), field :: x.2)
    | some _ => x

/-- `fillCreateServerFields`: the record and the fields filled in. -/
def fillCreateServerFields (md : Model) (ids : RequestIds) (etag : String) (record : Record) : Record × List String :=
  let x := fillIfOmitted md "tenant_id" ids.tenantID (record, [])
  let x := fillIfOmitted md "created_by" (ids.userID.getD "") x
  fillIfOmitted md "etag" etag x

/-- `acquireSequenceFields`, with the next value of each sequence. -/
def acquireSequenceFields (next : String → String) (record : Record) : List Field → Record
  | [] => record
  | f :: fs =>
    if f.kind = .sequence ∧ record.get? f.name = none then
      acquireSequenceFields next (record.set f.name (.text (next f.name))) fs
    else acquireSequenceFields next record fs

/-- The definition `buildAssignment` looks a name up to; path columns have an empty one. -/
def Model.assignable (md : Model) (k : String) : Option Field :=
  if k ∈ md.treeFields.map pathCol then some { name := k } else md.fields.find? fun f => f.name = k

/-- `relationIDs`: an array of UUID texts. -/
def isRelationIDs (uuid : String → Bool) : Value → Bool
  | .list items => items.all fun item => (item.map uuid).getD false
  | _ => false

/-- One entry of `buildAssignment`; `none` is an entry that assigns no column. -/
def assignment (md : Model) (denied : Denials) (uuid : String → Bool) (serverFilled : List String)
    (k : String) (v : Value) : Except HostError (Option (String × Value)) :=
  match md.assignable k with
  | none => .error ⟨.validationFailed, "unknown field " ++ k, some k⟩
  | some f =>
    if f.isComputed then
      .error ⟨.fieldNotWritable, "field " ++ k ++ " is computed and cannot be written directly", some k⟩
    else if f.isReadonly ∧ k ∉ serverFilled then
      .error ⟨.fieldNotWritable, "field " ++ k ++ " is readonly and cannot be written directly", some k⟩
    else if f.kind = .one2Many then
      .error ⟨.fieldNotWritable, "field " ++ k ++ " is a One2Many relation and cannot be written directly", some k⟩
    else match denied k with
      | some rule =>
        match rule.onDeniedWrite with
        | .ignore => .ok none
        | .reject => .error
            ⟨.fieldWriteDenied, "field " ++ k ++ " requires permission " ++ rule.writePermission, some k⟩
      | none =>
        if f.kind.isJoinRelation then
          if isRelationIDs uuid v then .ok none
          else .error ⟨.validationFailed, "field " ++ k ++ ": expected an array of UUID strings", some k⟩
        else .ok (some (k, v))

/-- `buildAssignment`: what the record assigns, field by field. -/
def buildAssignment (md : Model) (denied : Denials) (uuid : String → Bool) (serverFilled : List String) :
    Record → Except HostError (List (String × Value))
  | [] => .ok []
  | (k, v) :: rest => do
    let a ← assignment md denied uuid serverFilled k v
    let as ← buildAssignment md denied uuid serverFilled rest
    .ok (a.toList ++ as)

/-- A name whose entries assign no column: its write is ignored, or it is a join relation. -/
def dropped (md : Model) (denied : Denials) (k : String) : Bool :=
  match denied k with
  | some rule => rule.onDeniedWrite = .ignore
  | none => ((md.assignable k).map fun f => f.kind.isJoinRelation).getD false

variable {serverFilled : List String} {md : Model} {uuid : String → Bool} {denied : Denials}

/-- A field is assigned, or dropped where its rule says so. -/
theorem assignment_ok {k : String} {v : Value} {a : Option (String × Value)}
    (h : assignment md denied uuid serverFilled k v = .ok a) :
    a = if dropped md denied k then none else some (k, v) := by
  unfold assignment at h
  unfold dropped
  split at h
  · cases h
  rename_i f hf
  rw [hf]
  -- the three refusals come first
  split at h
  · cases h
  split at h
  · cases h
  split at h
  · cases h
  split at h
  · split at h
    · rename_i hignore
      cases h
      simp [hignore]
    · cases h
  by_cases hjoin : f.kind.isJoinRelation = true
  · rw [if_pos hjoin] at h
    split at h
    · cases h
      simp [hjoin]
    · cases h
  rw [if_neg hjoin] at h
  cases h
  simp [hjoin]

variable {assigned : List (String × Value)}

/-- The assignment is the record without the entries that are dropped. -/
theorem buildAssignment_ok {record : Record} (h : buildAssignment md denied uuid serverFilled record = .ok assigned) :
    assigned = record.filter fun x => !dropped md denied x.1 := by
  induction record generalizing assigned with
  | nil =>
    cases h
    rfl
  | cons x rest ih =>
    obtain ⟨a, ha, h⟩ := bind_eq_ok.mp h
    obtain ⟨as, has, h⟩ := bind_eq_ok.mp h
    cases h
    rw [assignment_ok ha, ih has, List.filter_cons]
    by_cases hd : dropped md denied x.1 = true
    · simp [hd]
    · simp [hd]

/-- What a record says of a column reaches the assignment, unless it is dropped. -/
theorem buildAssignment_get? {record : Record} (h : buildAssignment md denied uuid serverFilled record = .ok assigned)
    (k : String) : Record.get? assigned k = if dropped md denied k = true then none else record.get? k := by
  rw [buildAssignment_ok h, Record.get?_filter fun k => !dropped md denied k]
  cases dropped md denied k <;> rfl

/-- The join relations a record sets. -/
def relationFields (md : Model) (denied : Denials) (record : Record) : List String :=
  ((md.fields.filter fun f => f.kind.isJoinRelation).map Field.name).filter fun k =>
    (record.get? k).isSome && (denied k).isNone

end GoErp.Orm
