import Mathlib.Data.List.Basic
import GoErp.Orm.Model

/-!
# `Orm.Tree` — writes on a `.Tree()` model

The ORM's create, write, write_many and unlink on one table whose tree fields each have an engine-managed path column
(`wasm/host_orm_tree.go`, `wasm/host_orm_write.go`). Rows are keyed by the canonical text of their primary key. The
phases that touch no column of the tree are left out, those that can refuse the call are parameters.

Calls are checked against the stored paths only: a move is refused when the new parent's path extends the row's.
-/

namespace GoErp.Orm

open Lib

/-! ## Keys and labels -/

/-- `ltreeLabel` of a printed primary key: hyphens are invalid in labels. -/
def ltreeLabel (s : String) : String := String.ofList (s.toList.filter fun c => c ≠ '-')

/-- The type of the primary key: how Postgres reads a text as a key, by the key's canonical text. -/
structure KeyType where
  parse : String → Option String
  parse_canonical : ∀ {s k}, parse s = some k → parse k = some k
  /-- distinct keys have distinct labels -/
  label_inj : ∀ {k l}, parse k = some k → parse l = some l → ltreeLabel k = ltreeLabel l → k = l

def isLabel (s : String) : Bool := s ≠ "" && s.toList.all fun c => c.isAlphanum || c == '_'

/-- A text read as an `ltree`. -/
def parseLtree (s : String) : Option (List String) :=
  if s = "" then some []
  else
    let labels := (s.toList.splitOn '.').map String.ofList
    if labels.all isLabel then some labels else none

/-- `fmt.Sprint`. -/
def sprint : Value → String
  | .null => "<nil>"
  | .bool b => toString b
  | .int i => toString i
  | .text s => s
  | .list items => "[" ++ " ".intercalate (items.map fun item => item.getD "<nil>") ++ "]"
  | .ltree labels => ".".intercalate labels

/-! ## The table -/

def engineColumns : List String := ["etag", "updated_at", "deleted_at", "tenant_id", "created_by"]

/-- A declaration with a tree field whose table can be built: a primary key, and columns of distinct names. -/
structure TreeModel where
  md : Model
  isTree : md.treeFields ≠ []
  pkCol : String
  hasPk : md.primaryKeyColumn = some pkCol
  distinct : (md.fields.map Field.name ++ md.treeFields.map pathCol).Nodup
  pkKind : ∀ f ∈ md.fields, f.isPrimaryKey = true → f.kind = .uuid
  treeKind : ∀ f ∈ md.fields, f.isTree = true → f.kind = .many2One
  reserved : pkCol ∉ engineColumns ∧ ∀ f ∈ md.treeFields, f ∉ engineColumns ∧ pathCol f ∉ engineColumns

/-- What a call depends on besides the table. -/
structure Env where
  keys : KeyType
  /-- `uuid.Parse` accepts the text -/
  uuid : String → Bool
  /-- `validateDynamicLinkPairs` and `checkRelationTargets` -/
  precheck : Record → Except HostError Unit
  /-- `runConstraintHook` -/
  hook : String → Row → Except HostError Unit
  /-- the next value of each sequence -/
  next : String → String

abbrev Rows := Table String Row

section

variable (env : Env) (tm : TreeModel)

def TreeModel.treeFields : List String := tm.md.treeFields

/-- `deleted_at` is null, where the model has it. -/
def TreeModel.active (r : Row) : Bool := !tm.md.hasField "deleted_at" || r "deleted_at" = .null

def keyValue (keys : KeyType) : Value → Option Value
  | .null => some .null
  | .text s => (keys.parse s).map .text
  | _ => none

def ltreeValue : Value → Option Value
  | .null => some .null
  | .text s => (parseLtree s).map .ltree
  | .ltree labels => if labels.all isLabel then some (.ltree labels) else none
  | _ => none

/-- A value as the column's type stores it. -/
def TreeModel.coerce (c : String) (v : Value) : Option Value :=
  if c = tm.pkCol ∨ c ∈ tm.treeFields then keyValue env.keys v
  else if c ∈ tm.treeFields.map pathCol then ltreeValue v
  else some v

/-- The assigned columns of a row set; the rest as they were. -/
def TreeModel.storeCols (base : Row) : List (String × Value) → Except HostError Row
  | [] => .ok base
  | (c, v) :: rest => do
    let row ← storeCols base rest
    match tm.coerce env c v with
    | none => .error (sqlError ("invalid input for column " ++ c))
    | some w => .ok (row.set c w)

/-- The key a column refers to. -/
def refKey : Value → Option String
  | .text k => some k
  | _ => none

/-- The parent a row names in a tree field. -/
def parentOf (r : Row) (f : String) : Option String := refKey (r f)

/-- The stored path of a row, empty if it is null. -/
def pathOf (r : Row) (f : String) : List String :=
  match r (pathCol f) with
  | .ltree labels => labels
  | _ => []

/-- The key a row is stored under. -/
def TreeModel.keyOf (r : Row) : Option String := refKey (r tm.pkCol)

/-- The foreign keys of the tree fields. -/
def TreeModel.fkOk (t : Rows) (r : Row) : Bool :=
  tm.treeFields.all fun f => (parentOf r f).all fun p => (t.get? p).isSome

def foreignKeyError : HostError := ⟨.foreignKeyViolation, "violates foreign key constraint", none⟩

def uniqueError : HostError := ⟨.uniqueViolation, "duplicate key value violates unique constraint", none⟩

/-- `INSERT`: the primary key is unique, and a parent must be a row. -/
def TreeModel.insertRow (t : Rows) (row : Row) : Except HostError Rows :=
  match tm.keyOf row with
  | none => .error (sqlError "null value in column")
  | some k =>
    if (t.get? k).isSome then .error uniqueError
    else if tm.fkOk (t.insert k row) row then .ok (t.insert k row)
    else .error foreignKeyError

/-- A row put in the place of the one under a key, under its own key. -/
def TreeModel.replaceRow (t : Rows) (k : String) (row : Row) : Except HostError Rows :=
  match tm.keyOf row with
  | none => .error (sqlError "null value in column")
  | some k' =>
    if k' = k then
      if tm.fkOk (t.insert k row) row then .ok (t.insert k row) else .error foreignKeyError
    else if (t.get? k').isSome then .error uniqueError
    -- the primary key is referred to without ON UPDATE
    else if t.any fun _ r => tm.treeFields.any fun f => parentOf r f = some k then .error foreignKeyError
    else
      let t' := (t.filter fun j _ => j ≠ k).insert k' row
      if tm.fkOk t' row then .ok t' else .error foreignKeyError

/-- `lookupOwnTreePath`; no row, a null and an empty path all give the empty one. -/
def TreeModel.lookupTreePath (t : Rows) (f : String) (pkValue : Value) : Except HostError (List String) :=
  match keyValue env.keys pkValue with
  | none => .error (sqlError "invalid input syntax for type uuid")
  | some (.text k) =>
    match t.get? k with
    | some r => .ok (if tm.active r then pathOf r f else [])
    | none => .ok []
  | some _ => .ok []

def treeParentError (f : String) : HostError := ⟨.foreignKeyViolation, "tree parent not found", some f⟩

/-! ## Create -/

/-- The path under a parent value. -/
def TreeModel.pathUnder (t : Rows) (f : String) (label : String) : Option Value → Except HostError (List String)
  | none => .ok [label]
  | some .null => .ok [label]
  | some parentID => do
    let parentPath ← tm.lookupTreePath env t f parentID
    if parentPath = [] then .error (treeParentError f) else .ok (parentPath ++ [label])

/-- The paths of a new row, from its parents' paths. -/
def TreeModel.injectPaths (t : Rows) (label : String) (record : Record) : List String → Except HostError Record
  | [] => .ok record
  | f :: fs => do
    let path ← tm.pathUnder env t f label (record.get? f)
    injectPaths t label (record.set (pathCol f) (.ltree path)) fs

/-- `injectTreePathOnCreate`: the record with its paths, and the server-filled key if there was none. -/
def TreeModel.injectTreePathOnCreate (t : Rows) (genPK : String) (record : Record) :
    Except HostError (Record × List String) :=
  if tm.treeFields = [] then .ok (record, [])
  else match record.get? tm.pkCol with
    | none => do
      let record ← tm.injectPaths env t (ltreeLabel genPK) (record.set tm.pkCol (.text genPK)) tm.treeFields
      .ok (record, [tm.pkCol])
    | some ownPK => do
      let record ← tm.injectPaths env t (ltreeLabel (sprint ownPK)) record tm.treeFields
      .ok (record, [])

inductive ConflictPolicy where
  | ignore | update | other (name : String)
  deriving DecidableEq

structure OnConflict where
  fields : List String
  policy : ConflictPolicy

def insertSorted (s : String) : List String → List String
  | [] => [s]
  | x :: xs => if s ≤ x then s :: x :: xs else x :: insertSorted s xs

def sorted (l : List String) : List String := l.foldr insertSorted []

def TreeModel.validateOnConflictTarget (fields : List String) : Except HostError Unit :=
  if fields = [] then .error ⟨.conflictTargetInvalid, "on_conflict.fields must not be empty", none⟩
  else if sorted fields = [tm.pkCol] ∨ ∃ idx ∈ tm.md.uniqueIndexes, sorted idx = sorted fields then .ok ()
  else .error ⟨.conflictTargetInvalid, "on_conflict.fields " ++ ", ".intercalate fields ++
    " does not match any declared unique index on " ++ tm.md.name, none⟩

/-- The columns of a new row before any is assigned; a key that is not assigned is generated. -/
def TreeModel.defaultRow (dbPK : String) : Row := fun c =>
  if c = tm.pkCol then .text dbPK
  else ((tm.md.fields.find? fun f => f.name = c).bind Field.defaultExpr).getD .null

/-- The stored row that has the new row's values in the columns of the conflict target. -/
def conflictRow (t : Rows) (row : Row) (fields : List String) : Option (String × Row) :=
  t.rows.find? fun x => fields.all fun c => row c ≠ .null && x.2 c = row c

/-- The columns `ON CONFLICT … DO UPDATE` sets. -/
def conflictSets (serverFilled : List String) (assigned : List (String × Value)) : List String :=
  let sets := (assigned.map Prod.fst).filter fun c => c ∉ serverFilled && c ≠ "updated_at"
  if sets = [] then [] else sets ++ (assigned.map Prod.fst).filter fun c => c = "etag"

/-- `"updated_at" = NOW()`, where the model has the field. -/
def TreeModel.touch (now : String) (r : Row) : Row :=
  if tm.md.hasField "updated_at" then r.set "updated_at" (.text now) else r

/-- `ON CONFLICT … DO UPDATE` on a stored row. -/
def TreeModel.conflictUpdate (row old : Row) (assigned : List (String × Value)) (serverFilled : List String)
    (now : String) : Row :=
  tm.touch now fun c => if c ∈ conflictSets serverFilled assigned then row c else old c

/-- The statement of `createOneRecordTx`, with the row it returns; a skipped insert returns none. -/
def TreeModel.insertStatement (t : Rows) (row : Row) (assigned : List (String × Value)) (serverFilled : List String)
    (now : String) : Option OnConflict → Except HostError (Rows × Option Row)
  | none => do
    let t ← tm.insertRow t row
    .ok (t, some row)
  | some oc => do
    tm.validateOnConflictTarget oc.fields
    match oc.policy, conflictRow t row oc.fields with
    | .other name, _ =>
      .error ⟨.validationFailed, "on_conflict.policy must be \"ignore\" or \"update\", got " ++ name, none⟩
    | _, none => do
      let t ← tm.insertRow t row
      .ok (t, some row)
    | .ignore, some _ => .ok (t, none)
    | .update, some (k, old) =>
      if tm.active old then do
        let new := tm.conflictUpdate row old assigned serverFilled now
        let t ← tm.replaceRow t k new
        .ok (t, some new)
      else .error notFoundError

/-- The caller and the values the server supplies. -/
structure Call where
  denied : Denials
  requestIds : RequestIds
  /-- `uuid.NewV7` as a primary key -/
  genPK : String
  /-- the primary key the table's default would generate -/
  dbPK : String
  etag : String
  now : String

/-- The assigned columns of a record, the new row and the server-filled fields. -/
def TreeModel.newRow (call : Call) (record : Record) (serverFilled : List String) :
    Except HostError (List (String × Value) × Row × List String) := do
  let assigned ← buildAssignment tm.md call.denied env.uuid serverFilled record
  if assigned = [] ∧ relationFields tm.md call.denied record = [] then
    .error ⟨.validationFailed, "record has no fields to insert", none⟩
  else do
    let row ← tm.storeCols env (tm.defaultRow call.dbPK) assigned
    .ok (assigned, row, serverFilled)

/-- The steps of a create between the server fields and the statement. -/
def TreeModel.prepareFilled (t : Rows) (call : Call) (record : Record) (filled : List String) :
    Except HostError (List (String × Value) × Row × List String) := do
  validateWriteFields tm.md record true
  env.precheck record
  let injected ← tm.injectTreePathOnCreate env t call.genPK record
  tm.newRow env call (acquireSequenceFields env.next injected.1 tm.md.fields) (injected.2 ++ filled)

/-- Everything of a create before its statement. -/
def TreeModel.prepareCreate (t : Rows) (call : Call) (record : Record) :
    Except HostError (List (String × Value) × Row × List String) :=
  let x := fillCreateServerFields tm.md call.requestIds call.etag record
  tm.prepareFilled env t call x.1 x.2

/-- `runConstraintHook` on the row a statement returned, if any. -/
def runHook (operation : String) : Option Row → Except HostError Unit
  | none => .ok ()
  | some row => env.hook operation row

/-- `ormCreateRecordTx`. -/
def TreeModel.create (t : Rows) (call : Call) (record : Record) (onConflict : Option OnConflict) :
    Except HostError Rows := do
  let (assigned, row, serverFilled) ← tm.prepareCreate env t call record
  let (t', created) ← tm.insertStatement t row assigned serverFilled call.now onConflict
  runHook env "create" created
  .ok t'

/-! ## Write -/

/-- The row a `WHERE pk = $n` finds, with its key. -/
def TreeModel.activeRow (t : Rows) (id : String) : Except HostError (Option (String × Row)) :=
  match env.keys.parse id with
  | none => .error (sqlError "invalid input syntax for type uuid")
  | some k =>
    match t.get? k with
    | some r => .ok (if tm.active r then some (k, r) else none)
    | none => .ok none

/-- An expected etag that is not the row's. -/
def TreeModel.etagDiffers (r : Row) (expectedEtag : Option String) : Bool :=
  match expectedEtag with
  | none => false
  | some etag => tm.md.hasField "etag" && r "etag" ≠ .text etag

/-- `writeOneRecordTx`: the table and the updated row. -/
def TreeModel.writeOneRecordTx (t : Rows) (call : Call) (id : String) (record : Record)
    (expectedEtag : Option String) : Except HostError (Rows × Row) := do
  let assigned ← buildAssignment tm.md call.denied env.uuid ["etag"] record
  if assigned = [] ∧ relationFields tm.md call.denied record = [] then
    .error ⟨.validationFailed, "record has no fields to update", none⟩
  else match ← tm.activeRow env t id with
    | none => .error notFoundError
    | some (k, r) =>
      if tm.etagDiffers r expectedEtag then
        .error ⟨.etagMismatch, "record has been modified since it was last read", none⟩
      else do
        let row ← tm.storeCols env r (assigned.filter fun x => x.1 ≠ "updated_at")
        let t ← tm.replaceRow t k (tm.touch call.now row)
        .ok (t, tm.touch call.now row)

/-- A row below a moved one, with its path rewritten by `subpath`. -/
def TreeModel.rewriteRow (f : String) (oldPath newPrefix : List String) (r : Row) : Row :=
  if tm.active r && oldPath.isPrefixOf (pathOf r f) then
    r.set (pathCol f) (.ltree (if pathOf r f = oldPath then newPrefix
      else newPrefix ++ (pathOf r f).drop oldPath.length))
  else r

/-- The rewrite of the active rows with `path <@ $1`. The caller sees all of them: row policies are not modelled. -/
def TreeModel.rewritePaths (t : Rows) (f : String) (oldPath newPrefix : List String) : Rows :=
  t.update fun _ r => tm.rewriteRow f oldPath newPrefix r

/-- The new path of a row, refused where it would be its own ancestor. -/
def TreeModel.newPrefix (t : Rows) (f id : String) (oldPath : List String) (newParentID : Value) :
    Except HostError (List String) :=
  match newParentID with
  | .null => .ok [ltreeLabel id]
  | newParentID => do
    let newParentPath ← tm.lookupTreePath env t f newParentID
    if newParentPath = [] then .error (treeParentError f)
    else if oldPath.isPrefixOf newParentPath then
      .error ⟨.cycleDetected, "reparenting " ++ id ++ " under " ++ sprint newParentID ++
        " would make it its own ancestor", some f⟩
    else .ok (newParentPath ++ [ltreeLabel id])

/-- `maintainTreePathOnWrite` for one tree field. -/
def TreeModel.maintainField (t : Rows) (id : String) (record : Record) (f : String) : Except HostError Rows :=
  match record.get? f with
  | none => .ok t
  | some newParentID => do
    let oldPath ← tm.lookupTreePath env t f (.text id)
    if oldPath = [] then .ok t
    else do
      let newPrefix ← tm.newPrefix env t f id oldPath newParentID
      if newPrefix.all isLabel then .ok (tm.rewritePaths t f oldPath newPrefix)
      else .error (sqlError "ltree syntax error")

def TreeModel.maintainFields (id : String) (record : Record) (t : Rows) : List String → Except HostError Rows
  | [] => .ok t
  | f :: fs => do
    let t ← tm.maintainField env t id record f
    maintainFields id record t fs

/-- After the `UPDATE`: the subtree of each tree field that was written moves along. -/
def TreeModel.maintainTreePathOnWrite (t : Rows) (id : String) (record : Record) : Except HostError Rows :=
  tm.maintainFields env id record t tm.treeFields

def TreeModel.withEtag (call : Call) (record : Record) : Record :=
  if tm.md.hasField "etag" then record.set "etag" (.text call.etag) else record

/-- The statement of a write, the paths and the hook. -/
def TreeModel.writeRecord (t : Rows) (call : Call) (id : String) (record touched : Record)
    (expectedEtag : Option String) : Except HostError Rows := do
  let (t, updated) ← tm.writeOneRecordTx env t call id record expectedEtag
  let t ← tm.maintainTreePathOnWrite env t id touched
  env.hook "write" updated
  .ok t

/-- `ormWriteRecordTx`. -/
def TreeModel.write (t : Rows) (call : Call) (id : String) (record : Record) (expectedEtag : Option String) :
    Except HostError Rows := do
  validateWriteFields tm.md record false
  env.precheck record
  tm.writeRecord env t call id (tm.withEtag call record) record expectedEtag

/-- The loop of `writeManyIDsTx`. -/
def TreeModel.writeIds (call : Call) (record : Record) (t : Rows) : List String → Except HostError Rows
  | [] => .ok t
  | id :: ids => do
    let t ← tm.writeRecord env t call id record record none
    writeIds call record t ids

/-- `ORMWriteMany`. -/
def TreeModel.writeMany (t : Rows) (call : Call) (ids : List String) (record : Record) : Except HostError Rows := do
  validateWriteFields tm.md record false
  env.precheck record
  tm.writeIds env call (tm.withEtag call record) t ids

/-! ## Unlink -/

def TreeModel.treeFieldsWith (b : OnDeleteBehaviour) : List String :=
  (tm.md.fields.filter fun f => f.isTree && f.relationOnDelete = b).map Field.name

/-- The keys of the rows that refer to some of the keys by a tree field of a list. -/
def referring (t : Rows) (fields keys : List String) : List String :=
  (t.rows.filter fun x => fields.any fun f => (parentOf x.2 f).any fun p => p ∈ keys).map Prod.fst

/-- The keys deleted with some keys, by `ON DELETE CASCADE`. -/
def TreeModel.cascade (t : Rows) : Nat → List String → List String
  | 0, keys => keys
  | n + 1, keys => cascade t n (keys ++ referring t (tm.treeFieldsWith .cascade) keys)

/-- `ON DELETE SET NULL`. -/
def TreeModel.setNull (keys : List String) (r : Row) : Row := fun c =>
  if c ∈ tm.treeFieldsWith .setNull ∧ (parentOf r c).any (fun p => p ∈ keys) = true then .null else r c

/-- `DELETE … WHERE pk = $1` with its foreign-key actions. -/
def TreeModel.deleteRow (t : Rows) (k : String) : Except HostError Rows :=
  let keys := tm.cascade t t.rows.length [k]
  let left := (t.filter fun j _ => j ∉ keys).update fun _ r => tm.setNull keys r
  if referring left tm.treeFields keys = [] then .ok left else .error foreignKeyError

/-- A row marked as deleted. -/
def TreeModel.markDeleted (call : Call) (r : Row) : Row :=
  let r := tm.touch call.now (r.set "deleted_at" (.text call.now))
  if tm.md.hasField "etag" then r.set "etag" (.text call.etag) else r

/-- A soft delete if the model has `deleted_at`, else a `DELETE`. -/
def TreeModel.unlinkOne (t : Rows) (call : Call) (id : String) : Except HostError Rows := do
  match ← tm.activeRow env t id with
  | none => .error notFoundError
  | some (k, r) => do
    env.hook "delete" r
    if tm.md.hasField "deleted_at" then .ok (t.insert k (tm.markDeleted call r)) else tm.deleteRow t k

/-- `unlinkManyIDsTx`. -/
def TreeModel.unlink (call : Call) (t : Rows) : List String → Except HostError Rows
  | [] => .ok t
  | id :: ids => do
    let t ← tm.unlinkOne env t call id
    unlink call t ids

/-! ## Calls -/

inductive Op where
  | create (call : Call) (record : Record) (onConflict : Option OnConflict)
  | write (call : Call) (id : String) (record : Record) (expectedEtag : Option String)
  | writeMany (call : Call) (ids : List String) (record : Record)
  | unlink (call : Call) (ids : List String)

/-- A call of the engine on the table. -/
def TreeModel.exec (t : Rows) : Op → Except HostError Rows
  | .create call record onConflict => tm.create env t call record onConflict
  | .write call id record expectedEtag => tm.write env t call id record expectedEtag
  | .writeMany call ids record => tm.writeMany env t call ids record
  | .unlink call ids => tm.unlink env call t ids

/-- A call that succeeds. -/
def TreeModel.step (t : Rows) (op : Op) : Option Rows :=
  match tm.exec env t op with
  | .ok t' => some t'
  | .error _ => none

end

end GoErp.Orm
