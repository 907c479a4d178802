import GoErp.Lib.Run
import GoErp.Lib.Table

/-!
# `Auth.Session` — refresh-token families under READ COMMITTED

`Rotate` (`auth/session/rotate.go`) replaces the row of the presented token by a successor; a token rotated before is
a replay, which revokes the family unless its live row is of the caller's own device. `RevokeFamily`
(`auth/session/family.go`) repeats an `UPDATE` until it matches no row.

A statement that starts (`begin`) fixes its candidates among the rows committed then; each is visited when no other
transaction holds its lock, and the condition is evaluated again on the version committed by that time; a row that
passes stays locked up to the commit (`finish`), which makes the writes visible. Session ids and refresh tokens are
random: a new one is new.
-/

namespace GoErp.Session

open Lib

/-- What a successor inherits from the row it replaces. -/
structure Login where
  userID : String
  tenantID : String
  mfaVerifiedAt : Option Nat
  mfaMethod : Option String
  mfaCredentialID : Option String
  persistent : Bool
  passwordChangeRequired : Bool
deriving DecidableEq, Repr

/-- A row of `system.sessions`. -/
structure Row where
  family : String
  device : String
  hash : String
  login : Login
  createdAt : Nat
  expiresAt : Nat
  rotated : Bool
  revoked : Bool
deriving DecidableEq, Repr

def Row.live (r : Row) : Bool := !r.rotated && !r.revoked

/-- The committed rows by id. -/
abbrev Rows := Table String Row

structure RotateArgs where
  presentedHash : String
  newSessionID : String
  newHash : String
  requestDeviceID : String
  now : Nat
  newExpiresAt : (tenantID : String) → (persistent : Bool) → (familyStart : Nat) → Option Nat

/-- How a call of `Rotate` ends. -/
inductive RotateOutcome where
  | ok
  | notFound
  | familyRevoked
  | replaySameDevice
  | replayDifferentDevice
  | expired
deriving DecidableEq, Repr

/-- Where a call of `Rotate` is. `presented` and `holder` are the rows it holds locked. -/
inductive RotatePc where
  | start
  /-- looks up the presented token -/
  | find (todo : List String)
  | rotate (id : String) (row : Row) (expiry : Nat)
  | replay (presented family : String)
  /-- looks up the live row of the family -/
  | current (presented family : String) (todo : List String)
  | compromise (presented holder family : String)
  | sweep (presented holder family : String) (todo revoked : List String)
  | done (outcome : RotateOutcome)
  | failed

/-- Where a call of `RevokeFamily` is; `all` are the rows it has revoked. -/
inductive RevokePc where
  | start (all : List String)
  | pass (all todo matched : List String)
  | done (all : List String)
  | failed

/-- A call in progress, with its arguments and its place. -/
inductive Proc where
  | rotate (args : RotateArgs) (pc : RotatePc)
  | revoke (family : String) (pc : RevokePc)

/-- The committed rows and the calls in progress. -/
structure State where
  rows : Rows
  procs : List Proc

def State.empty : State := ⟨Table.empty, []⟩

/-! ## Statements -/

/-- The ids of the committed rows that meet a condition. -/
def idsWhere (rows : Rows) (p : Row → Bool) : List String := (rows.rows.filter fun x => p x.2).map Prod.fst

/-- The login time of the family: that of its first row, if it is still there. -/
def familyStart (rows : Rows) (r : Row) : Nat := ((rows.get? r.family).map (·.createdAt)).getD r.createdAt

/-- What `Rotate` does with the row of the presented token. -/
def presented (a : RotateArgs) (rows : Rows) (id : String) (r : Row) : RotatePc :=
  if r.revoked then .done .familyRevoked
  else if r.rotated then .replay id r.family
  else if r.expiresAt ≤ a.now then .done .expired
  else
    match a.newExpiresAt r.login.tenantID r.login.persistent (familyStart rows r) with
    | none => .failed
    | some e => if e ≤ a.now then .done .expired else .rotate id r e

/-- The row that replaces a rotated one. -/
def successor (a : RotateArgs) (r : Row) (expiry : Nat) : Row where
  family := r.family
  device := if a.requestDeviceID ≠ "" then a.requestDeviceID else r.device
  hash := a.newHash
  login := r.login
  createdAt := a.now
  expiresAt := expiry
  rotated := false
  revoked := false

def markRotated (rows : Rows) (id : String) : Rows :=
  rows.update fun k r => if k = id then { r with rotated := true } else r

def markRevoked (rows : Rows) (ids : List String) : Rows :=
  rows.update fun k r => if k ∈ ids then { r with revoked := true } else r

def hashFree (rows : Rows) (hash : String) : Bool := !rows.any fun _ r => r.hash = hash

/-- The start of the next statement. -/
def Proc.begin (rows : Rows) : Proc → Option Proc
  | .rotate a .start => some (.rotate a (.find (idsWhere rows fun r => r.hash = a.presentedHash)))
  | .rotate a (.replay p f) => some (.rotate a (.current p f (idsWhere rows fun r => r.family = f && r.live)))
  | .rotate a (.compromise p h f) => some (.rotate a (.sweep p h f (idsWhere rows fun r => r.family = f) []))
  | .revoke f (.start all) => some (.revoke f (.pass all (idsWhere rows fun r => r.family = f && !r.revoked) []))
  | _ => none

/-- A visit to a candidate whose lock is free; `r` is the version committed by now. -/
def Proc.visit (rows : Rows) (id : String) (r : Row) : Proc → Option Proc
  | .rotate a (.find todo) => if id ∈ todo then some (.rotate a (presented a rows id r)) else none
  | .rotate a (.current p f todo) =>
    if id ∉ todo then none
    else if !r.live then some (.rotate a (.current p f (todo.filter (· ≠ id))))
    else if a.requestDeviceID ≠ "" ∧ a.requestDeviceID = r.device then some (.rotate a (.done .replaySameDevice))
    else some (.rotate a (.compromise p id f))
  | .rotate a (.sweep p h f todo revoked) =>
    if id ∉ todo then none else some (.rotate a (.sweep p h f (todo.filter (· ≠ id)) (id :: revoked)))
  | .revoke f (.pass all todo matched) =>
    if id ∉ todo then none
    else if r.revoked then some (.revoke f (.pass all (todo.filter (· ≠ id)) matched))
    else some (.revoke f (.pass all (todo.filter (· ≠ id)) (matched ++ [id])))
  | _ => none

/-- The end of a statement with no candidate left, and of the transaction: the rows after the commit. -/
def Proc.finish (rows : Rows) : Proc → Option (Rows × Proc)
  | .rotate a (.find []) => some (rows, .rotate a (.done .notFound))
  | .rotate a (.rotate id r e) =>
    if (rows.get? a.newSessionID).isNone && hashFree rows a.newHash then
      some ((markRotated rows id).insert a.newSessionID (successor a r e), .rotate a (.done .ok))
    else none
  | .rotate a (.current _ _ []) => some (rows, .rotate a (.done .familyRevoked))
  | .rotate a (.sweep _ _ _ [] revoked) =>
    some (markRevoked rows revoked, .rotate a (.done .replayDifferentDevice))
  | .revoke f (.pass all [] matched) =>
    if matched = [] then some (rows, .revoke f (.done all))
    else some (markRevoked rows matched, .revoke f (.start (all ++ matched)))
  | _ => none

/-- A call that is still running returns an error. -/
def Proc.abort : Proc → Option Proc
  | .rotate _ (.done _) => none
  | .rotate _ .failed => none
  | .rotate a _ => some (.rotate a .failed)
  | .revoke _ (.done _) => none
  | .revoke _ .failed => none
  | .revoke f _ => some (.revoke f .failed)

/-- The row locks that a transaction holds. -/
def Proc.locks : Proc → List String
  | .rotate _ (.rotate id _ _) => [id]
  | .rotate _ (.replay p _) => [p]
  | .rotate _ (.current p _ _) => [p]
  | .rotate _ (.compromise p h _) => [p, h]
  | .rotate _ (.sweep p h _ _ revoked) => p :: h :: revoked
  | .revoke _ (.pass _ _ matched) => matched
  | _ => []

/-! ## The system -/

/-- A login, a call that starts, or a step of the call at a place of `procs`. -/
inductive Event where
  | issue (id device hash : String) (login : Login) (createdAt expiresAt : Nat)
  | rotate (args : RotateArgs)
  | revokeFamily (family : String)
  | begin (i : Nat)
  | visit (i : Nat) (id : String)
  | finish (i : Nat)
  | abort (i : Nat)

/-- No other transaction holds the lock. -/
def State.free (s : State) (i : Nat) (id : String) : Bool := (s.procs.eraseIdx i).all fun p => id ∉ p.locks

def Proc.revokes (f : String) : Proc → Bool
  | .revoke f' _ => f' = f
  | _ => false

/-- A new id names no row, no family and no family to revoke. -/
def State.idFree (s : State) (id : String) : Bool :=
  (s.rows.get? id).isNone && !(s.rows.any fun _ r => r.family = id) && !(s.procs.any (·.revokes id))

def State.setProc (s : State) (i : Nat) (p : Proc) : State := { s with procs := s.procs.set i p }

/-- The steps of the store; a step that its call cannot take is `none`. -/
def step (s : State) : Event → Option State
  | .issue id device hash login createdAt expiresAt =>
    if s.idFree id && hashFree s.rows hash then
      some { s with rows := s.rows.insert id ⟨id, device, hash, login, createdAt, expiresAt, false, false⟩ }
    else none
  | .rotate a => some { s with procs := s.procs ++ [.rotate a .start] }
  | .revokeFamily f => some { s with procs := s.procs ++ [.revoke f (.start [])] }
  | .begin i => do
    let p ← s.procs[i]?
    let p' ← p.begin s.rows
    return s.setProc i p'
  | .visit i id => do
    let p ← s.procs[i]?
    let r ← s.rows.get? id
    if s.free i id then
      let p' ← p.visit s.rows id r
      return s.setProc i p'
    else none
  | .finish i => do
    let p ← s.procs[i]?
    let (rows, p') ← p.finish s.rows
    return { s.setProc i p' with rows := rows }
  | .abort i => do
    let p ← s.procs[i]?
    let p' ← p.abort
    return s.setProc i p'

/-! ## What the calls promise -/

/-- At most one live row a family and one successor a token; a revoked family has no unrevoked row. -/
structure Safe (s : State) : Prop where
  one_live : ∀ id id' r r', s.rows.get? id = some r → s.rows.get? id' = some r' → r.live = true → r'.live = true →
    r.family = r'.family → id = id'
  one_successor : ∀ (i j : Nat) a b, s.procs[i]? = some (.rotate a (.done .ok)) →
    s.procs[j]? = some (.rotate b (.done .ok)) → a.presentedHash = b.presentedHash → i = j
  revoked : ∀ (i : Nat) f all, s.procs[i]? = some (.revoke f (.done all)) → ∀ id r, s.rows.get? id = some r →
    r.family = f → r.revoked = true

/-- The call has found its token to be a replay, in this family. -/
def Proc.replays : Proc → Option (RotateArgs × String)
  | .rotate a (.replay _ f) => some (a, f)
  | .rotate a (.current _ f _) => some (a, f)
  | .rotate a (.compromise _ _ f) => some (a, f)
  | .rotate a (.sweep _ _ f _ _) => some (a, f)
  | _ => none

def Proc.isDone : Proc → Bool
  | .rotate _ (.done _) => true
  | .revoke _ (.done _) => true
  | _ => false

/-- A replay that returns with this event leaves no live row in its family but of the caller's own device. -/
def ReplayRevokes (s : State) (e : Event) : Prop :=
  ∀ s', step s e = some s' → ∀ (i : Nat) p p' a f, s.procs[i]? = some p → p.replays = some (a, f) →
    s'.procs[i]? = some p' → p'.isDone = true →
    ∀ id r, s'.rows.get? id = some r → r.family = f → r.live = true →
      a.requestDeviceID ≠ "" ∧ r.device = a.requestDeviceID

/-- The call is one of `RevokeFamily` on the family, and running. -/
def Proc.revoking (f : String) : Proc → Bool
  | .revoke f' (.start _) => f' = f
  | .revoke f' (.pass _ _ _) => f' = f
  | _ => false

/-- Calls of `RevokeFamily` on one family do not overlap. -/
def RevokesAlone (s : State) : Event → Prop
  | .revokeFamily f => s.procs.any (·.revoking f) = false
  | _ => True

/-- The call is looking up the live row of its family. -/
def Proc.seeksHolder : Proc → Bool
  | .rotate _ (.current _ _ _) => true
  | _ => false

/-- The lookup of the live row does not come upon a row rotated since it started. -/
def HolderNotRotated (s : State) : Event → Prop
  | .visit i id => (s.procs[i]?).any (·.seeksHolder) = true → (s.rows.get? id).any (·.rotated) = false
  | _ => True

instance (s : State) : (e : Event) → Decidable (RevokesAlone s e)
  | .revokeFamily f => inferInstanceAs (Decidable (s.procs.any (·.revoking f) = false))
  | .issue _ _ _ _ _ _ | .rotate _ | .begin _ | .visit _ _ | .finish _ | .abort _ => isTrue trivial

instance (s : State) : (e : Event) → Decidable (HolderNotRotated s e)
  | .visit i id =>
    inferInstanceAs (Decidable ((s.procs[i]?).any (·.seeksHolder) = true → (s.rows.get? id).any (·.rotated) = false))
  | .issue _ _ _ _ _ _ | .rotate _ | .revokeFamily _ | .begin _ | .finish _ | .abort _ => isTrue trivial

end GoErp.Session
