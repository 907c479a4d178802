import Mathlib.Data.List.Basic

/-!
# `Ws.Access` — channel names and who may use them

`recordTarget`, `feedModule` and `Conn.allows` (`ws/hub.go`). Record, role and feed channels are guarded: no connection
may use one without a check (`allows_granted`), and the check asked for is the one of that channel (`allows_ask`).

Names are lists of characters. A check is a call into the engine: `allows` says which call is made, if any.
-/

namespace GoErp.WsHub

/-- `strings.CutPrefix` -/
def cutPre : List Char → List Char → Option (List Char)
  | [], s => some s
  | _ :: _, [] => none
  | p :: ps, c :: cs => if p = c then cutPre ps cs else none

/-- `strings.Cut(s, ":")` -/
def cutColon : List Char → Option (List Char × List Char)
  | [] => none
  | c :: cs => if c = ':' then some ([], cs) else (cutColon cs).map fun x => (c :: x.1, x.2)

def recordPre : List Char := "record:".toList

def uiRecordPre : List Char := "ui:record:".toList

def rolePre : List Char := "ui:role:".toList

def feedPre : List Char := "feed:".toList

/-- `recordTarget`: the resource and the id of a record channel, under either name. -/
def recordTarget (channel : List Char) : Option (List Char × List Char) :=
  match (cutPre recordPre channel).or (cutPre uiRecordPre channel) with
  | none => none
  | some target =>
    match cutColon target with
    | none => none
    | some (resource, id) => if resource ≠ [] ∧ id ≠ [] ∧ ':' ∉ id then some (resource, id) else none

/-- `feedModule` -/
def feedModule (channel : List Char) : Option (List Char) :=
  match cutPre feedPre channel with
  | none => none
  | some mod => if mod ≠ [] ∧ ':' ∉ mod then some mod else none

def NotificationsChannel : List Char := "notifications".toList

def TenantChannel (tenantID : List Char) : List Char := "tenant:".toList ++ tenantID

def UserChannel (userID : List Char) : List Char := "ui:user:".toList ++ userID

/-- The channel of the same record under the other name. -/
def aliasChannel (channel : List Char) : Option (List Char) :=
  match recordTarget channel with
  | none => none
  | some (resource, id) =>
    if (cutPre uiRecordPre channel).isSome then some (recordPre ++ resource ++ [':'] ++ id)
    else some (uiRecordPre ++ resource ++ [':'] ++ id)

/-- Which of the checks of a connection are set. -/
structure AccessChecks where
  role : Bool
  moduleEnabled : Bool
  readResource : Bool
  readRecord : Bool
  recordEligible : Bool
  presenceProfile : Bool
deriving DecidableEq, Repr

/-- A call of a check. -/
inductive Check where
  | role (role : List Char)
  | moduleEnabled (mod : List Char)
  | readResource (mod resource : List Char)
  | readRecord (resource id : List Char)
deriving DecidableEq, Repr

/-- What `allows` says without asking anybody. -/
inductive Verdict where
  | refused
  | granted
  | ask (check : Check)
deriving DecidableEq, Repr

/-- `Conn.allows` -/
def allows (userID tenantID : List Char) (access : AccessChecks) (channel : List Char) : Verdict :=
  if userID = [] ∨ tenantID = [] then .refused
  else if channel = NotificationsChannel ∨ channel = TenantChannel tenantID ∨ channel = UserChannel userID then .granted
  else
    match (cutPre rolePre channel).filter (fun role => role ≠ [] ∧ access.role),
      (feedModule channel).filter (fun _ => access.moduleEnabled),
      (recordTarget channel).filter (fun _ => access.readRecord) with
    | some role, _, _ => .ask (.role role)
    | none, some mod, _ => .ask (.moduleEnabled mod)
    | none, none, some (resource, id) => .ask (.readRecord resource id)
    | none, none, none => .refused

/-- Record, role and feed channels. -/
def Guarded (channel : List Char) : Prop :=
  (recordTarget channel).isSome ∨ (cutPre rolePre channel).isSome ∨ (feedModule channel).isSome

/-- The check is the one of the channel. -/
def Check.Covers (channel : List Char) : Check → Prop
  | .role r => cutPre rolePre channel = some r
  | .moduleEnabled mod => feedModule channel = some mod
  | .readResource _ _ => False
  | .readRecord resource id => recordTarget channel = some (resource, id)

variable {channel tenantID userID : List Char}

/-- The channels open to every user of a tenant have none of the guarded names. -/
theorem not_guarded_of_open
    (h : channel = NotificationsChannel ∨ channel = TenantChannel tenantID ∨ channel = UserChannel userID) :
    ¬ Guarded channel := by
  have hnone : cutPre recordPre channel = none ∧ cutPre uiRecordPre channel = none ∧ cutPre rolePre channel = none ∧
      cutPre feedPre channel = none := by
    rcases h with rfl | rfl | rfl <;> exact ⟨rfl, rfl, rfl, rfl⟩
  obtain ⟨hrecord, hui, hrole, hfeed⟩ := hnone
  simp [Guarded, recordTarget, feedModule, hrecord, hui, hrole, hfeed]

/-- A guarded channel is never granted without a check. -/
theorem allows_granted {access : AccessChecks}
    (h : allows userID tenantID access channel = .granted) : ¬ Guarded channel := by
  unfold allows at h
  split at h
  · simp at h
  split at h
  · rename_i hopen
    exact not_guarded_of_open hopen
  · -- the other channels are refused or asked for
    split at h <;> simp at h

/-- The check is the one of the channel. -/
theorem allows_ask {access : AccessChecks} {check : Check}
    (h : allows userID tenantID access channel = .ask check) : check.Covers channel := by
  unfold allows at h
  split at h
  · simp at h
  split at h
  · simp at h
  split at h
  · rename_i hrole
    obtain rfl := Verdict.ask.inj h
    exact (Option.filter_eq_some_iff.mp hrole).1
  · rename_i hfeed
    obtain rfl := Verdict.ask.inj h
    exact (Option.filter_eq_some_iff.mp hfeed).1
  · rename_i hrecord
    obtain rfl := Verdict.ask.inj h
    exact (Option.filter_eq_some_iff.mp hrecord).1
  · simp at h

/-- The other name of a record is not the name of a feed. -/
theorem feedModule_aliasChannel {other : List Char} (h : aliasChannel channel = some other) :
    feedModule other = none := by
  unfold aliasChannel at h
  split at h
  · simp at h
  split at h
  all_goals
    cases h
    rfl

end GoErp.WsHub
