import GoErp.Lib.Assoc
import GoErp.Lib.Run
import GoErp.Ws.Access

/-!
# `Ws.Hub` — connections, subscriptions and deliveries

`ws/hub.go`, with the parts of `ws/presence.go` and `ws/broadcast.go` that touch the hub's maps. Every section under
`h.mu` is one step, every call of a check and every write to a socket too. What a connection's `deliveryMu` guards
runs under that lock: `Conn.holder` is the place at which its holder stands. A broadcast takes its targets in one
step; the deliveries then wait for the locks of their connections.
-/

namespace GoErp.WsHub

open Lib Lib.Run

variable {P : Type}

/-! ## The state -/

/-- The goroutine of a broadcast for one of its targets. -/
structure Delivery (P : Type) where
  conn : Nat
  /-- `target.channel` -/
  channel : List Char
  /-- the channel of the broadcast, which may be the other name of the record -/
  source : List Char
  tenantID : List Char
  userID : List Char
  msgType : List Char
  payload : P

inductive Body (P : Type) where
  | payload (payload : P)
  /-- `record.unavailable` -/
  | unavailable (resource id : List Char)

structure Envelope (P : Type) where
  channel : List Char
  msgType : List Char
  body : Body P

/-- What follows a call of `unsubscribe`. -/
inductive After (P : Type) where
  | release
  /-- the next round of the loop in `unregister` -/
  | unregister
  /-- the rest of a refusal in `deliveryEnvelope`; `failed` if the check returned an error -/
  | refuse (d : Delivery P) (failed : Bool)
  /-- the call of `RecordEligible` -/
  | eligible (d : Delivery P)

/-- Where the holder of a connection's `deliveryMu` stands. The lists of checks are ghosts: the calls that have
succeeded in this delivery. -/
inductive Pc (P : Type) where
  | release
  /-- `subscribe`, before `allows` -/
  | subscribe (channel : List Char)
  /-- `joinPresence` -/
  | join (channel : List Char)
  /-- `subscribeLocked`, before its section -/
  | add (channel : List Char) (joining : Bool)
  /-- `joinPresence`, before `PresenceProfile` and the script -/
  | profile (channel : List Char)
  /-- `unsubscribe`, before its section -/
  | unsubscribe (channel : List Char) (after : After P)
  /-- `leavePresence` -/
  | leave (channel : List Char) (after : After P)
  /-- `unregister`, at the head of the loop -/
  | unregister
  /-- `unregister`, before its section -/
  | removeConn
  /-- a delivery, before it looks up its subscription -/
  | recheck (d : Delivery P)
  /-- `deliveryEnvelope`, before its check -/
  | envelope (d : Delivery P)
  /-- `deliveryEnvelope`, before `RecordEligible` -/
  | eligible (d : Delivery P)
  /-- before `ReadResource` -/
  | readResource (d : Delivery P) (env : Envelope P) (passed : List Check)
  /-- before `wsjson.Write` -/
  | write (d : Delivery P) (env : Envelope P) (passed : List Check)

/-- How far `unregister` is. -/
inductive Phase where
  | serving
  /-- `unregister` has been called -/
  | closing
  /-- `unregister` has removed the connection -/
  | closed
deriving DecidableEq, Repr

/-- A connection: what it subscribes to, what it may read, and what holds its delivery lock. -/
structure Conn (P : Type) where
  userID : List Char
  tenantID : List Char
  access : AccessChecks
  channels : List (List Char)
  presence : List (List Char)
  phase : Phase
  holder : Option (Pc P)

/-- An envelope given to `wsjson.Write`, with the checks that succeeded in the same delivery. -/
structure Written (P : Type) where
  delivery : Delivery P
  envelope : Envelope P
  passed : List Check

structure Hub (P : Type) where
  /-- the keys of `h.conns` -/
  conns : List Nat
  subscribers : List (List Char × List Nat)
  /-- every `Conn` made, by its id -/
  all : Nat → Option (Conn P)
  /-- deliveries that wait for the lock of their connection -/
  pending : List (Delivery P)
  /-- ghost: what was sent -/
  written : List (Written P)
  presenceStore : Bool

/-- `NewHub` and `Start`. -/
def NewHub (presenceStore : Bool) : Hub P where
  conns := []
  subscribers := []
  all := fun _ => none
  pending := []
  written := []
  presenceStore := presenceStore

/-! ### The map of subscribers -/

def subs (subscribers : List (List Char × List Nat)) (channel : List Char) : List Nat :=
  (Assoc.get? subscribers channel).getD []

def addSub (subscribers : List (List Char × List Nat)) (channel : List Char) (id : Nat) : List (List Char × List Nat) :=
  Assoc.put subscribers channel ((subs subscribers channel).insert id)

/-- The set of a channel is deleted with its last member. -/
def dropSub (subscribers : List (List Char × List Nat)) (channel : List Char) (id : Nat) :
    List (List Char × List Nat) :=
  match Assoc.get? subscribers channel with
  | none => subscribers
  | some ids =>
    let rest := ids.filter (· ≠ id)
    if rest = [] then subscribers.filter fun x => x.1 ≠ channel else Assoc.put subscribers channel rest

variable {subscribers : List (List Char × List Nat)}

theorem mem_subs_addSub {channel ch : List Char} {id j : Nat} :
    j ∈ subs (addSub subscribers channel id) ch ↔ ch = channel ∧ j = id ∨ j ∈ subs subscribers ch := by
  unfold subs addSub
  rw [Assoc.get?_put]
  by_cases hch : ch = channel
  · rw [if_pos hch, Option.getD_some, List.mem_insert_iff, hch]
    simp [subs]
  · simp [hch]

theorem mem_subs_dropSub {channel ch : List Char} {id j : Nat} :
    j ∈ subs (dropSub subscribers channel id) ch ↔ j ∈ subs subscribers ch ∧ ¬ (ch = channel ∧ j = id) := by
  unfold dropSub
  cases hget : Assoc.get? subscribers channel with
  | none =>
    -- no set for the channel, so nobody is in it
    refine ⟨fun hj => ⟨hj, ?_⟩, fun h => h.1⟩
    rintro ⟨rfl, -⟩
    simp [subs, hget] at hj
  | some ids =>
    by_cases hch : ch = channel
    · subst hch
      have hsubs : subs subscribers ch = ids := by rw [subs, hget, Option.getD_some]
      have hrest : subs (if ids.filter (· ≠ id) = [] then subscribers.filter (fun x => x.1 ≠ ch)
          else Assoc.put subscribers ch (ids.filter (· ≠ id))) ch = ids.filter (· ≠ id) := by
        split
        · rename_i hnil
          rw [subs, Assoc.get?_filter_self, hnil]
          rfl
        · rw [subs, Assoc.get?_put, if_pos rfl, Option.getD_some]
      rw [hrest, hsubs]
      simp
    · have hsame : subs (if ids.filter (· ≠ id) = [] then subscribers.filter (fun x => x.1 ≠ channel)
          else Assoc.put subscribers channel (ids.filter (· ≠ id))) ch = subs subscribers ch := by
        split
        · rw [subs, Assoc.get?_filter_ne _ hch, subs]
        · rw [subs, Assoc.get?_put, if_neg hch, subs]
      rw [hsame]
      simp [hch]

/-! ## Steps -/

namespace Hub

def setConn (h : Hub P) (id : Nat) (c : Conn P) : Hub P :=
  { h with all := fun j => if j = id then some c else h.all j }

/-- The holder of the lock goes on. -/
def goto (h : Hub P) (id : Nat) (c : Conn P) (pc : Pc P) : Hub P := h.setConn id { c with holder := some pc }

end Hub

def After.pc : After P → Pc P
  | .release => .release
  | .unregister => .unregister
  | .refuse d failed =>
    match recordTarget d.channel with
    | none => .release
    | some (resource, id) =>
      .leave (recordPre ++ resource ++ [':'] ++ id) (if failed then .release else .eligible d)
  | .eligible d => .eligible d

/-- `Conn.allows`, with the answer of the check it makes: `none` is an error. -/
def Conn.allowed (c : Conn P) (channel : List Char) (answer : Option Bool) : Bool :=
  match allows c.userID c.tenantID c.access channel with
  | .refused => false
  | .granted => true
  | .ask _ => answer = some true

/-- A channel that can have presence. -/
def RecordChannel (channel : List Char) : Prop :=
  (recordTarget channel).isSome ∧ (cutPre recordPre channel).isSome

instance (channel : List Char) : Decidable (RecordChannel channel) := inferInstanceAs (Decidable (_ ∧ _))

section

variable (feedResource : P → List Char)

/-- A delivery after `deliveryEnvelope`. -/
def proceed (c : Conn P) (d : Delivery P) (env : Envelope P) (passed : List Check) : Pc P :=
  match feedModule d.source with
  | none => .write d env passed
  | some _ =>
    if feedResource d.payload = [] ∨ !c.access.readResource then .release else .readResource d env passed

def message (d : Delivery P) : Envelope P where
  channel := d.channel
  msgType := d.msgType
  body := .payload d.payload

/-- The end of `deliveryEnvelope`, through `allows`. -/
def viaAllows (c : Conn P) (d : Delivery P) (answer : Option Bool) : Pc P :=
  match allows c.userID c.tenantID c.access d.channel with
  | .refused => .unsubscribe d.channel .release
  | .granted => proceed feedResource c d (message d) []
  | .ask check =>
    if answer = some true then proceed feedResource c d (message d) [check] else .unsubscribe d.channel .release

/-- `deliveryEnvelope`, with the answer of its check. -/
def deliveryEnvelope (c : Conn P) (d : Delivery P) (answer : Option Bool) : Pc P :=
  match recordTarget d.channel with
  | none => viaAllows feedResource c d answer
  | some (resource, id) =>
    if c.access.readRecord then
      if answer = some true then proceed feedResource c d (message d) [.readRecord resource id]
      else .unsubscribe d.channel (.refuse d answer.isNone)
    else viaAllows feedResource c d answer

/-- The step of the holder of a connection's lock. `answer` is what the check it calls returns, `pick` the channel the
loop of `unregister` goes on with. -/
def Hub.act (h : Hub P) (id : Nat) (c : Conn P) (answer : Option Bool) (pick : List Char) : Pc P → Option (Hub P)
  | .release => some (h.setConn id { c with holder := none })
  | .subscribe channel => some (h.goto id c (if c.allowed channel answer then .add channel false else .release))
  | .join channel =>
    if RecordChannel channel ∧ h.presenceStore ∧ c.access.presenceProfile then
      some (h.goto id c (if c.allowed channel answer then .add channel true else .unsubscribe channel .release))
    else some (h.goto id c .release)
  | .add channel joining =>
    some ({ h with subscribers := addSub h.subscribers channel id }.goto id
      { c with channels := c.channels.insert channel } (if joining then .profile channel else .release))
  | .profile channel =>
    if answer = some true then some (h.goto id { c with presence := c.presence.insert channel } .release)
    else some (h.goto id c .release)
  | .unsubscribe channel after =>
    some ({ h with subscribers := dropSub h.subscribers channel id }.goto id
      { c with channels := c.channels.filter (· ≠ channel) } (.leave channel after))
  | .leave channel after => some (h.goto id { c with presence := c.presence.filter (· ≠ channel) } after.pc)
  | .unregister =>
    if c.channels = [] then some (h.goto id c .removeConn)
    else if pick ∈ c.channels then some (h.goto id c (.unsubscribe pick .unregister))
    else none
  | .removeConn =>
    some ({ h with conns := h.conns.filter (· ≠ id) }.goto id { c with phase := .closed } .release)
  | .recheck d => some (h.goto id c (if d.channel ∈ c.channels then .envelope d else .release))
  | .envelope d => some (h.goto id c (deliveryEnvelope feedResource c d answer))
  | .eligible d =>
    match recordTarget d.channel with
    | none => some (h.goto id c .release)
    | some (resource, record) =>
      if c.access.recordEligible ∧ answer = some true then
        some (h.goto id c (proceed feedResource c d
          ⟨d.channel, "record.unavailable".toList, .unavailable resource record⟩ []))
      else some (h.goto id c .release)
  | .readResource d env passed =>
    match feedModule d.source with
    | none => none
    | some mod =>
      if answer = some true then
        some (h.goto id c (.write d env (.readResource mod (feedResource d.payload) :: passed)))
      else some (h.goto id c .release)
  | .write d env passed => some ({ h with written := ⟨d, env, passed⟩ :: h.written }.goto id c .release)

end

/-- The messages of a connection, and its end. -/
inductive Request where
  | subscribe (channel : List Char)
  | unsubscribe (channel : List Char)
  | join (channel : List Char)
  | leave (channel : List Char)
  | unregister

def Request.pc : Request → Pc P
  | .subscribe channel => .subscribe channel
  | .unsubscribe channel => .unsubscribe channel .release
  | .join channel => .join channel
  | .leave channel => .leave channel .release
  | .unregister => .unregister

def Request.phase : Request → Phase
  | .unregister => .closing
  | _ => .serving

structure BroadcastMessage (P : Type) where
  channel : List Char
  tenantID : List Char
  userID : List Char
  msgType : List Char
  payload : P

namespace Hub

def included (h : Hub P) (msg : BroadcastMessage P) (id : Nat) : Bool :=
  match h.all id with
  | none => false
  | some c => c.tenantID = msg.tenantID ∧ (msg.userID = [] ∨ c.userID = msg.userID)

/-- The first half of `broadcastEnvelopes`: one delivery for each target. -/
def broadcastEnvelopes (h : Hub P) (msg : BroadcastMessage P) : Hub P :=
  let targets := (msg.channel :: (aliasChannel msg.channel).toList).flatMap fun target =>
    ((subs h.subscribers target).filter (h.included msg)).map fun id =>
      ({ conn := id, channel := target, source := msg.channel, tenantID := msg.tenantID, userID := msg.userID,
         msgType := msg.msgType, payload := msg.payload } : Delivery P)
  { h with pending := h.pending ++ targets }

/-- `deliver`: a message from the bus. -/
def deliver (h : Hub P) (msg : BroadcastMessage P) : Except String (Hub P) :=
  if msg.tenantID = [] ∨ msg.channel = [] ∨ msg.msgType = [] ∨
      (msg.channel = NotificationsChannel ∧ msg.userID = []) then
    .error "invalid WebSocket broadcast target or type"
  else .ok (h.broadcastEnvelopes msg)

/-- `publish`: through the bus if that works, on this instance otherwise. -/
def publish (h : Hub P) (msg : BroadcastMessage P) (published : Bool) : Except String (Hub P) :=
  if msg.tenantID = [] then .error "broadcast: a target tenant is required"
  else if published then .ok h
  else .ok (h.broadcastEnvelopes msg)

end Hub

/-- A request, a delivery, or the next section of what holds a connection's lock. -/
inductive HubEvent (P : Type) where
  | register (id : Nat) (userID tenantID : List Char) (access : AccessChecks)
  | request (id : Nat) (request : Request)
  | act (id : Nat) (answer : Option Bool) (pick : List Char)
  | deliver (msg : BroadcastMessage P)
  | publish (msg : BroadcastMessage P) (published : Bool)
  /-- a waiting delivery gets the lock of its connection -/
  | begin (index : Nat)

variable (feedResource : P → List Char)

/-- One section under `h.mu`, one access check or one socket write. -/
def hubStep (h : Hub P) : HubEvent P → Option (Hub P)
  | .register id userID tenantID access =>
    match h.all id with
    | some _ => none
    | none => some ({ h with conns := h.conns.insert id }.setConn id
        ⟨userID, tenantID, access, [], [], .serving, none⟩)
  | .request id request =>
    match h.all id with
    | none => none
    | some c =>
      if c.holder.isNone ∧ c.phase = .serving then some (h.goto id { c with phase := request.phase } request.pc)
      else none
  | .act id answer pick =>
    match h.all id with
    | none => none
    | some c =>
      match c.holder with
      | none => none
      | some pc => h.act feedResource id c answer pick pc
  | .deliver msg =>
    match h.deliver msg with
    | .error _ => some h
    | .ok h' => some h'
  | .publish msg published =>
    match h.publish msg published with
    | .error _ => some h
    | .ok h' => some h'
  | .begin index =>
    match h.pending[index]? with
    | none => none
    | some d =>
      match h.all d.conn with
      | none => none
      | some c =>
        if c.holder.isNone then
          some ({ h with pending := h.pending.eraseIdx index }.goto d.conn c (.recheck d))
        else none

end GoErp.WsHub
