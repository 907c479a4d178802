import GoErp.Ws.Hub

/-!
# `Ws.HubInvariant` — what holds of the hub in every interleaving

A step of a lock's holder changes its own connection and that connection's place in the shared maps (`Effect`), so the
invariant is one of each connection by itself (`ConnOk`), with what its lock's holder relies on at each place (`PcOk`).
-/

namespace GoErp.WsHub

open Lib Lib.Run List

variable {P : Type}

/-! ## What the holder of a lock relies on -/

/-- The connection is one the broadcast is for. -/
def Addressed (c : Conn P) (d : Delivery P) : Prop :=
  c.tenantID = d.tenantID ∧ (d.userID = [] ∨ c.userID = d.userID)

/-- The delivery is for the connection. -/
structure Targeted (id : Nat) (c : Conn P) (d : Delivery P) : Prop where
  conn : d.conn = id
  addressed : Addressed c d
  /-- only records have a second name -/
  source : d.channel = d.source ∨ feedModule d.channel = none

/-- A payload on a guarded channel has passed the check of the channel. -/
def Cleared (env : Envelope P) (passed : List Check) : Prop :=
  ∀ p, env.body = .payload p → Guarded env.channel → ∃ check ∈ passed, check.Covers env.channel

/-- What is sent in a delivery: its payload or a notice, on its channel. -/
def EnvelopeOf (d : Delivery P) (env : Envelope P) : Prop :=
  env.channel = d.channel ∧ ∀ p, env.body = .payload p → p = d.payload

section

variable (feedResource : P → List Char)

/-- In addition, a payload on a feed has passed the check of the resource it names. -/
def Authorised (env : Envelope P) (passed : List Check) : Prop :=
  Cleared env passed ∧
    ∀ p mod, env.body = .payload p → feedModule env.channel = some mod → .readResource mod (feedResource p) ∈ passed

/-- What a call goes on with fits the connection. -/
def AfterOk (id : Nat) (c : Conn P) : After P → Prop
  | .release => True
  | .unregister => c.phase = .closing
  | .refuse d _ => Targeted id c d
  | .eligible d => Targeted id c d

/-- What the holder of the lock is about to do fits the connection. -/
def PcOk (id : Nat) (c : Conn P) : Pc P → Prop
  | .release => True
  | .subscribe _ => c.phase = .serving
  | .join _ => c.phase = .serving
  | .add channel joining => c.phase = .serving ∧ (joining = true → RecordChannel channel)
  | .profile channel => c.phase = .serving ∧ RecordChannel channel ∧ channel ∈ c.channels
  | .unsubscribe _ after => c.phase ≠ .closed ∧ AfterOk id c after
  | .leave _ after => c.phase ≠ .closed ∧ AfterOk id c after
  | .unregister => c.phase = .closing
  | .removeConn => c.phase = .closing ∧ c.channels = []
  | .recheck d => Targeted id c d
  | .envelope d => c.phase ≠ .closed ∧ Targeted id c d
  | .eligible d => c.phase ≠ .closed ∧ Targeted id c d
  | .readResource d env passed =>
    c.phase ≠ .closed ∧ Targeted id c d ∧ EnvelopeOf d env ∧ Cleared env passed
  | .write d env passed =>
    c.phase ≠ .closed ∧ Targeted id c d ∧ EnvelopeOf d env ∧ Authorised feedResource env passed

/-- A connection's own maps and the hub's agree, up to what the holder of its lock is about to do. -/
structure ConnOk (h : Hub P) (id : Nat) (c : Conn P) : Prop where
  mirrored : ∀ ch, ch ∈ c.channels ↔ id ∈ subs h.subscribers ch
  presence : ∀ ch ∈ c.presence, RecordChannel ch ∧ (ch ∈ c.channels ∨ ∃ after, c.holder = some (.leave ch after))
  closed : c.phase = .closed → c.channels = [] ∧ id ∉ h.conns
  holder : ∀ pc, c.holder = some pc → PcOk feedResource id c pc

/-- All connections are in order, and what is pending is for connections that exist. -/
structure Inv (h : Hub P) : Prop where
  conn : ∀ id c, h.all id = some c → ConnOk feedResource h id c
  subscribers : ∀ ch, ∀ id ∈ subs h.subscribers ch, (h.all id).isSome
  pending : ∀ d ∈ h.pending, ∃ c, h.all d.conn = some c ∧ Targeted d.conn c d
  written : ∀ w ∈ h.written, Authorised feedResource w.envelope w.passed ∧
    ∃ c, h.all w.delivery.conn = some c ∧ Addressed c w.delivery

/-! ## Steps of one connection -/

/-- Nothing but the connection and its place in the maps changes. -/
structure Effect (h h' : Hub P) (id : Nat) (c c' : Conn P) : Prop where
  self : h'.all id = some c'
  others : ∀ j, j ≠ id → h'.all j = h.all j
  subs : ∀ j, j ≠ id → ∀ ch, j ∈ subs h'.subscribers ch ↔ j ∈ subs h.subscribers ch
  conns : ∀ j, j ≠ id → (j ∈ h'.conns ↔ j ∈ h.conns)
  user : c'.userID = c.userID
  tenant : c'.tenantID = c.tenantID

variable {feedResource} {h h' : Hub P} {id : Nat} {c c' : Conn P}

/-- A connection that a step leaves alone. -/
theorem ConnOk.other (hc : ConnOk feedResource h id c)
    (hsubs : ∀ ch, id ∈ subs h'.subscribers ch ↔ id ∈ subs h.subscribers ch)
    (hconns : id ∈ h'.conns ↔ id ∈ h.conns) : ConnOk feedResource h' id c where
  mirrored := fun ch => (hc.mirrored ch).trans (hsubs ch).symm
  presence := hc.presence
  closed := fun hphase => ⟨(hc.closed hphase).1, fun hmem => (hc.closed hphase).2 (hconns.mp hmem)⟩
  holder := hc.holder

theorem Addressed.congr {d : Delivery P} (h : Addressed c d) (huser : c'.userID = c.userID)
    (htenant : c'.tenantID = c.tenantID) : Addressed c' d := by
  unfold Addressed at h ⊢
  rw [huser, htenant]
  exact h

theorem Targeted.congr {d : Delivery P} (h : Targeted id c d) (huser : c'.userID = c.userID)
    (htenant : c'.tenantID = c.tenantID) : Targeted id c' d :=
  ⟨h.conn, h.addressed.congr huser htenant, h.source⟩

variable {after : After P}

theorem AfterOk.congr (h : AfterOk id c after) (huser : c'.userID = c.userID) (htenant : c'.tenantID = c.tenantID)
    (hphase : c'.phase = c.phase) : AfterOk id c' after := by
  cases after with
  | release => trivial
  | unregister => exact hphase.trans h
  | refuse d failed => exact Targeted.congr h huser htenant
  | eligible d => exact Targeted.congr h huser htenant

/-- The invariant after a step of one connection. -/
theorem Inv.of_effect (hinv : Inv feedResource h) (hid : h.all id = some c) (heff : Effect h h' id c c')
    (hok : ConnOk feedResource h' id c') (hpending : ∀ d ∈ h'.pending, d ∈ h.pending)
    (hwritten : ∀ w ∈ h'.written, w ∈ h.written ∨
      Authorised feedResource w.envelope w.passed ∧ Targeted id c w.delivery) : Inv feedResource h' := by
  have hkeep : ∀ j x, h.all j = some x →
      ∃ y, h'.all j = some y ∧ y.userID = x.userID ∧ y.tenantID = x.tenantID := by
    intro j x hx
    by_cases hj : j = id
    · subst hj
      obtain rfl := Option.some.inj (hid.symm.trans hx)
      exact ⟨c', heff.self, heff.user, heff.tenant⟩
    · exact ⟨x, (heff.others j hj).trans hx, rfl, rfl⟩
  refine ⟨fun j x hx => ?_, fun ch j hj => ?_, fun d hd => ?_, fun w hw => ?_⟩
  · by_cases hj : j = id
    · subst hj
      obtain rfl := Option.some.inj (heff.self.symm.trans hx)
      exact hok
    · rw [heff.others j hj] at hx
      exact (hinv.conn j x hx).other (heff.subs j hj) (heff.conns j hj)
  · by_cases hji : j = id
    · rw [hji, heff.self]
      rfl
    · rw [heff.others j hji]
      exact hinv.subscribers ch j ((heff.subs j hji ch).mp hj)
  · obtain ⟨x, hx, htarget⟩ := hinv.pending d (hpending d hd)
    obtain ⟨y, hy, huser, htenant⟩ := hkeep _ x hx
    exact ⟨y, hy, htarget.congr huser htenant⟩
  rcases hwritten w hw with hw | ⟨hauth, htarget⟩
  · obtain ⟨hauth, x, hx, haddr⟩ := hinv.written w hw
    obtain ⟨y, hy, huser, htenant⟩ := hkeep _ x hx
    exact ⟨hauth, y, hy, haddr.congr huser htenant⟩
  · exact ⟨hauth, c', by rw [htarget.conn]; exact heff.self, htarget.addressed.congr heff.user heff.tenant⟩

/-- Except in `leavePresence`, the presence set is within the channels. -/
theorem ConnOk.presence_subset (hc : ConnOk feedResource h id c)
    (hleave : ∀ ch after, c.holder ≠ some (.leave ch after))
    {ch : List Char} (hch : ch ∈ c.presence) : ch ∈ c.channels := by
  rcases (hc.presence ch hch).2 with hmem | ⟨after, heq⟩
  · exact hmem
  · exact absurd heq (hleave ch after)

theorem pcOk_holder (holder : Option (Pc P)) (pc : Pc P) :
    PcOk feedResource id { c with holder := holder } pc ↔ PcOk feedResource id c pc := by
  have haddr : ∀ d, Targeted id { c with holder := holder } d ↔ Targeted id c d :=
    fun d => ⟨fun ht => ht.congr rfl rfl, fun ht => ht.congr rfl rfl⟩
  cases pc with
  | unsubscribe ch after | leave ch after => cases after <;> simp only [PcOk, AfterOk, haddr]
  | _ => simp only [PcOk, haddr]

/-- The holder goes on without touching a map. -/
theorem ConnOk.goto (hc : ConnOk feedResource h id c) (hsub : ∀ ch ∈ c.presence, ch ∈ c.channels) {pc : Pc P}
    (hpc : PcOk feedResource id c pc) : ConnOk feedResource (h.goto id c pc) id { c with holder := some pc } where
  mirrored := hc.mirrored
  presence := fun ch hch => ⟨(hc.presence ch hch).1, .inl (hsub ch hch)⟩
  closed := hc.closed
  holder := by
    intro pc' heq
    cases heq
    exact (pcOk_holder _ _).mpr hpc

/-- A step of the holder of `id`'s lock after which the invariant holds. -/
def StepOk (feedResource : P → List Char) (h h' : Hub P) (id : Nat) (c : Conn P) : Prop :=
  ∃ c', Effect h h' id c c' ∧ ConnOk feedResource h' id c' ∧ (∀ d ∈ h'.pending, d ∈ h.pending) ∧
    ∀ w ∈ h'.written, w ∈ h.written ∨ Authorised feedResource w.envelope w.passed ∧ Targeted id c w.delivery

/-- Only the connection changes, and stays that of its user. -/
theorem StepOk.setConn (huser : c'.userID = c.userID) (htenant : c'.tenantID = c.tenantID)
    (hok : ConnOk feedResource (h.setConn id c') id c') : StepOk feedResource h (h.setConn id c') id c :=
  ⟨c', ⟨if_pos rfl, fun _ hj => if_neg hj, fun _ _ _ => Iff.rfl, fun _ _ => Iff.rfl, huser, htenant⟩, hok,
    fun _ hd => hd, fun _ hw => .inl hw⟩

/-- The holder goes on to another statement. -/
theorem StepOk.goto (hc : ConnOk feedResource h id c) (hsub : ∀ ch ∈ c.presence, ch ∈ c.channels) {pc : Pc P}
    (hpc : PcOk feedResource id c pc) : StepOk feedResource h (h.goto id c pc) id c :=
  .setConn rfl rfl (hc.goto hsub hpc)

/-- A step that is right for one connection keeps the invariant. -/
theorem StepOk.inv (hinv : Inv feedResource h) (hid : h.all id = some c) (hstep : StepOk feedResource h h' id c) :
    Inv feedResource h' := by
  obtain ⟨c', heff, hok, hpending, hwritten⟩ := hstep
  exact hinv.of_effect hid heff hok hpending hwritten

/-! ## The places of a delivery -/

theorem AfterOk.pc (hphase : c.phase ≠ .closed) (hafter : AfterOk id c after) : PcOk feedResource id c after.pc := by
  cases after with
  | release => trivial
  | unregister => exact hafter
  | refuse d failed =>
    simp only [After.pc]
    split
    · trivial
    refine ⟨hphase, ?_⟩
    cases failed with
    | true => trivial
    | false => exact hafter
  | eligible d => exact ⟨hphase, hafter⟩

variable {d : Delivery P}

/-- A payload goes on to the writer only with the check of its channel passed. -/
theorem pcOk_proceed (hphase : c.phase ≠ .closed) (ht : Targeted id c d) {env : Envelope P} {passed : List Check}
    (henv : EnvelopeOf d env) (hcleared : Cleared env passed) :
    PcOk feedResource id c (proceed feedResource c d env passed) := by
  unfold proceed
  split
  · rename_i hfeed
    refine ⟨hphase, ht, henv, hcleared, fun p mod hp hmod => ?_⟩
    -- the broadcast is not one of a feed, and so the channel is not
    rw [henv.1] at hmod
    rcases ht.source with hsource | hnone
    · rw [hsource, hfeed] at hmod
      simp at hmod
    · rw [hnone] at hmod
      simp at hmod
  · split
    · trivial
    · exact ⟨hphase, ht, henv, hcleared⟩

theorem envelopeOf_message (d : Delivery P) : EnvelopeOf d (message d) :=
  ⟨rfl, fun _ hp => (Body.payload.inj hp).symm⟩

/-- The answer of `allows` decides whether a delivery goes on. -/
theorem pcOk_viaAllows (hphase : c.phase ≠ .closed) (ht : Targeted id c d) (answer : Option Bool) :
    PcOk feedResource id c (viaAllows feedResource c d answer) := by
  unfold viaAllows
  split
  · exact ⟨hphase, trivial⟩
  · rename_i hallows
    apply pcOk_proceed hphase ht (envelopeOf_message d)
    intro p _ hguarded
    exact absurd hguarded (allows_granted hallows)
  rename_i check hallows
  split
  · apply pcOk_proceed hphase ht (envelopeOf_message d)
    intro p _ _
    exact ⟨check, by simp, allows_ask hallows⟩
  · exact ⟨hphase, trivial⟩

theorem pcOk_deliveryEnvelope (hphase : c.phase ≠ .closed) (ht : Targeted id c d) (answer : Option Bool) :
    PcOk feedResource id c (deliveryEnvelope feedResource c d answer) := by
  unfold deliveryEnvelope
  split
  · exact pcOk_viaAllows hphase ht answer
  rename_i resource record hrecord
  split
  · split
    · apply pcOk_proceed hphase ht (envelopeOf_message d)
      intro p _ _
      exact ⟨.readRecord resource record, by simp, hrecord⟩
    · exact ⟨hphase, ht⟩
  · exact pcOk_viaAllows hphase ht answer

/-! ## The steps under a lock -/

section

variable (hc : ConnOk feedResource h id c)

include hc

theorem act_release (hholder : c.holder = some .release) :
    StepOk feedResource h (h.setConn id { c with holder := none }) id c := by
  refine .setConn rfl rfl
    ⟨hc.mirrored, fun ch hch => ⟨(hc.presence ch hch).1, .inl ?_⟩, hc.closed, fun pc heq => ?_⟩
  · exact hc.presence_subset (by simp [hholder]) hch
  · simp at heq

variable {channel : List Char}

/-- A channel enters both maps. -/
theorem act_add {joining : Bool} (hholder : c.holder = some (.add channel joining)) :
    StepOk feedResource h ({ h with subscribers := addSub h.subscribers channel id }.goto id
      { c with channels := c.channels.insert channel } (if joining then .profile channel else .release)) id c := by
  obtain ⟨hphase, hjoining⟩ := hc.holder _ hholder
  refine ⟨_, ⟨if_pos rfl, fun _ hj => if_neg hj, fun j hj ch => ?_, fun _ _ => Iff.rfl, rfl, rfl⟩,
    ⟨fun ch => ?_, fun ch hch => ⟨(hc.presence ch hch).1, .inl ?_⟩, fun hclosed => ?_, fun pc heq => ?_⟩,
    fun _ hd => hd, fun _ hw => .inl hw⟩
  · show j ∈ subs (addSub h.subscribers channel id) ch ↔ _
    rw [mem_subs_addSub]
    simp [hj]
  · show ch ∈ c.channels.insert channel ↔ id ∈ subs (addSub h.subscribers channel id) ch
    rw [mem_subs_addSub, mem_insert_iff, hc.mirrored]
    simp
  · exact mem_insert_of_mem (hc.presence_subset (by simp [hholder]) hch)
  · exact absurd (hphase.symm.trans hclosed) (by simp)
  cases heq
  cases joining with
  | false => trivial
  | true => exact ⟨hphase, hjoining rfl, List.mem_insert_self⟩

theorem act_profile (hholder : c.holder = some (.profile channel)) :
    StepOk feedResource h (h.goto id { c with presence := c.presence.insert channel } .release) id c := by
  obtain ⟨-, hrecord, hchannel⟩ := hc.holder _ hholder
  have hsub : ∀ ch ∈ c.presence, ch ∈ c.channels := fun _ => hc.presence_subset (by simp [hholder])
  refine .setConn rfl rfl ⟨hc.mirrored, fun ch hch => ?_, hc.closed, fun pc heq => ?_⟩
  · rcases mem_insert_iff.mp hch with rfl | hch
    · exact ⟨hrecord, .inl hchannel⟩
    · exact ⟨(hc.presence ch hch).1, .inl (hsub ch hch)⟩
  · cases heq
    trivial

/-- The channel leaves both maps; from the presence set it is still to be removed. -/
theorem act_unsubscribe (hholder : c.holder = some (.unsubscribe channel after)) :
    StepOk feedResource h ({ h with subscribers := dropSub h.subscribers channel id }.goto id
      { c with channels := c.channels.filter (· ≠ channel) } (.leave channel after)) id c := by
  obtain ⟨hphase, hafter⟩ := hc.holder _ hholder
  refine ⟨_, ⟨if_pos rfl, fun _ hj => if_neg hj, fun j hj ch => ?_, fun _ _ => Iff.rfl, rfl, rfl⟩,
    ⟨fun ch => ?_, fun ch hch => ⟨(hc.presence ch hch).1, ?_⟩, fun hclosed => absurd hclosed hphase, fun pc heq => ?_⟩,
    fun _ hd => hd, fun _ hw => .inl hw⟩
  · show j ∈ subs (dropSub h.subscribers channel id) ch ↔ _
    rw [mem_subs_dropSub]
    simp [hj]
  · show ch ∈ c.channels.filter (· ≠ channel) ↔ id ∈ subs (dropSub h.subscribers channel id) ch
    rw [mem_subs_dropSub, mem_filter, hc.mirrored]
    simp
  · by_cases heq : ch = channel
    · exact .inr ⟨after, by rw [heq]⟩
    · have hmem := hc.presence_subset (by simp [hholder]) hch
      exact .inl (mem_filter.mpr ⟨hmem, by simpa using heq⟩)
  · cases heq
    exact ⟨hphase, hafter.congr rfl rfl rfl⟩

/-- A channel leaves the presence set. -/
theorem act_leave (hholder : c.holder = some (.leave channel after)) :
    StepOk feedResource h (h.goto id { c with presence := c.presence.filter (· ≠ channel) } after.pc) id c := by
  obtain ⟨hphase, hafter⟩ := hc.holder _ hholder
  refine .setConn rfl rfl ⟨hc.mirrored, fun ch hch => ?_, hc.closed, fun pc heq => ?_⟩
  · obtain ⟨hmem, hne⟩ := mem_filter.mp hch
    obtain ⟨hrecord, hin⟩ := hc.presence ch hmem
    refine ⟨hrecord, .inl ?_⟩
    -- the one channel that may be outside is the one that leaves
    rcases hin with hin | ⟨after', heq⟩
    · exact hin
    · obtain ⟨rfl, -⟩ := Pc.leave.inj (Option.some.inj (hholder.symm.trans heq))
      simp at hne
  · cases heq
    exact AfterOk.pc (by exact hphase) (hafter.congr rfl rfl rfl)

/-- The connection leaves the hub. -/
theorem act_removeConn (hholder : c.holder = some .removeConn) :
    StepOk feedResource h
      ({ h with conns := h.conns.filter (· ≠ id) }.goto id { c with phase := .closed } .release) id c := by
  obtain ⟨-, hchannels⟩ := hc.holder _ hholder
  refine ⟨_, ⟨if_pos rfl, fun _ hj => if_neg hj, fun _ _ _ => Iff.rfl, fun j hj => ?_, rfl, rfl⟩,
    ⟨hc.mirrored, fun ch hch => ⟨(hc.presence ch hch).1, .inl ?_⟩, fun _ => ⟨hchannels, ?_⟩, fun pc heq => ?_⟩,
    fun _ hd => hd, fun _ hw => .inl hw⟩
  · show j ∈ h.conns.filter (· ≠ id) ↔ _
    simp [hj]
  · exact hc.presence_subset (by simp [hholder]) hch
  · show id ∉ h.conns.filter (· ≠ id)
    simp
  · cases heq
    trivial

/-- A payload that is written was cleared. -/
theorem act_write {env : Envelope P} {passed : List Check}
    (hholder : c.holder = some (.write d env passed)) :
    StepOk feedResource h ({ h with written := ⟨d, env, passed⟩ :: h.written }.goto id c .release) id c := by
  obtain ⟨hphase, ht, -, hauth⟩ := hc.holder _ hholder
  have hsub : ∀ ch ∈ c.presence, ch ∈ c.channels := fun _ => hc.presence_subset (by simp [hholder])
  refine ⟨_, ⟨if_pos rfl, fun _ hj => if_neg hj, fun _ _ _ => Iff.rfl, fun _ _ => Iff.rfl, rfl, rfl⟩,
    ⟨hc.mirrored, fun ch hch => ⟨(hc.presence ch hch).1, .inl (hsub ch hch)⟩, hc.closed, fun pc heq => ?_⟩,
    fun _ hd => hd, fun w hw => ?_⟩
  · cases heq
    trivial
  rcases mem_cons.mp hw with rfl | hw
  · exact .inr ⟨hauth, ht⟩
  · exact .inl hw

/-- **One step under a lock.** -/
theorem act_ok {pc : Pc P} (hholder : c.holder = some pc) {answer : Option Bool}
    {pick : List Char} (hact : h.act feedResource id c answer pick pc = some h') : StepOk feedResource h h' id c := by
  have hpc := hc.holder pc hholder
  have hsub : (∀ ch after, pc ≠ .leave ch after) → ∀ ch ∈ c.presence, ch ∈ c.channels := by
    intro hleave ch hch
    apply hc.presence_subset _ hch
    intro ch' after heq
    exact hleave ch' after (Option.some.inj (hholder.symm.trans heq))
  cases pc with
  | release =>
    cases hact
    exact act_release hc hholder
  | subscribe channel =>
    cases hact
    apply StepOk.goto hc (hsub (by simp))
    split
    · exact ⟨hpc, by simp⟩
    · trivial
  | join channel =>
    simp only [Hub.act] at hact
    split at hact
    · rename_i hjoin
      cases hact
      apply StepOk.goto hc (hsub (by simp))
      split
      · exact ⟨hpc, fun _ => hjoin.1⟩
      · exact ⟨by rw [show c.phase = .serving from hpc]; simp, trivial⟩
    · cases hact
      exact StepOk.goto hc (hsub (by simp)) trivial
  | add channel joining =>
    cases hact
    exact act_add hc hholder
  | profile channel =>
    simp only [Hub.act] at hact
    split at hact
    · cases hact
      exact act_profile hc hholder
    · cases hact
      exact StepOk.goto hc (hsub (by simp)) trivial
  | unsubscribe channel after =>
    cases hact
    exact act_unsubscribe hc hholder
  | leave channel after =>
    cases hact
    exact act_leave hc hholder
  | unregister =>
    have hphase : c.phase = .closing := hpc
    simp only [Hub.act] at hact
    split at hact
    · rename_i hnil
      cases hact
      exact StepOk.goto hc (hsub (by simp)) ⟨hphase, hnil⟩
    split at hact
    · cases hact
      exact StepOk.goto hc (hsub (by simp)) ⟨by rw [hphase]; simp, hphase⟩
    · simp at hact
  | removeConn =>
    cases hact
    exact act_removeConn hc hholder
  | recheck d =>
    cases hact
    apply StepOk.goto hc (hsub (by simp))
    split
    · rename_i hmem
      -- a closed connection has no channels
      refine ⟨fun hclosed => ?_, hpc⟩
      rw [(hc.closed hclosed).1] at hmem
      simp at hmem
    · trivial
  | envelope d =>
    cases hact
    exact StepOk.goto hc (hsub (by simp)) (pcOk_deliveryEnvelope hpc.1 hpc.2 answer)
  | eligible d =>
    simp only [Hub.act] at hact
    split at hact
    · cases hact
      exact StepOk.goto hc (hsub (by simp)) trivial
    split at hact
    · cases hact
      apply StepOk.goto hc (hsub (by simp))
      apply pcOk_proceed hpc.1 hpc.2 ⟨rfl, fun p hp => by simp at hp⟩
      intro p hp
      simp at hp
    · cases hact
      exact StepOk.goto hc (hsub (by simp)) trivial
  | readResource d env passed =>
    obtain ⟨hphase, ht, henv, hcleared⟩ := hpc
    simp only [Hub.act] at hact
    split at hact
    · simp at hact
    rename_i mod hmod
    split at hact
    · cases hact
      apply StepOk.goto hc (hsub (by simp))
      refine ⟨hphase, ht, henv, fun p hp hguarded => ?_, fun p mod' hp hmod' => ?_⟩
      · obtain ⟨check, hmem, hcovers⟩ := hcleared p hp hguarded
        exact ⟨check, mem_cons_of_mem _ hmem, hcovers⟩
      -- the channel is the broadcast's own, so its module is the one that was checked
      rw [henv.1] at hmod'
      have hsame : mod' = mod := by
        rcases ht.source with hsource | hnone
        · rw [hsource, hmod] at hmod'
          exact (Option.some.inj hmod').symm
        · rw [hnone] at hmod'
          simp at hmod'
      rw [hsame, henv.2 p hp]
      exact mem_cons_self
    · cases hact
      exact StepOk.goto hc (hsub (by simp)) trivial
  | write d env passed =>
    cases hact
    exact act_write hc hholder

end

/-! ## The other steps -/

/-- A new connection has no channels. -/
theorem Inv.register (hinv : Inv feedResource h) (hnew : h.all id = none) (userID tenantID : List Char)
    (access : AccessChecks) : Inv feedResource ({ h with conns := h.conns.insert id }.setConn id
      ⟨userID, tenantID, access, [], [], .serving, none⟩) := by
  have hold : ∀ {j x}, h.all j = some x → (if j = id then some ⟨userID, tenantID, access, [], [], .serving, none⟩
      else h.all j) = some x := by
    intro j x hx
    have hne : j ≠ id := by
      rintro rfl
      rw [hnew] at hx
      simp at hx
    rw [if_neg hne]
    exact hx
  refine ⟨fun j x hx => ?_, fun ch j hj => ?_, fun d hd => ?_, fun w hw => ?_⟩
  · by_cases hj : j = id
    · obtain rfl := Option.some.inj ((if_pos hj).symm.trans hx)
      refine ⟨fun ch => ?_, fun ch hch => by simp at hch, fun hclosed => by simp at hclosed,
        fun pc heq => by simp at heq⟩
      -- nobody subscribes under an id that is not in use
      refine ⟨fun hch => by simp at hch, fun hmem => ?_⟩
      have hknown := hinv.subscribers ch j hmem
      rw [hj, hnew] at hknown
      simp at hknown
    · have hx' : h.all j = some x := (if_neg hj).symm.trans hx
      refine (hinv.conn j x hx').other (fun _ => Iff.rfl) ?_
      show j ∈ h.conns.insert id ↔ _
      simp [hj]
  · obtain ⟨x, hx⟩ := Option.isSome_iff_exists.mp (hinv.subscribers ch j hj)
    exact Option.isSome_iff_exists.mpr ⟨x, hold hx⟩
  · obtain ⟨x, hx, ht⟩ := hinv.pending d hd
    exact ⟨x, hold hx, ht⟩
  · obtain ⟨hauth, x, hx, haddr⟩ := hinv.written w hw
    exact ⟨hauth, x, hold hx, haddr⟩

theorem request_ok (hc : ConnOk feedResource h id c) (hholder : c.holder.isNone) (request : Request) :
    StepOk feedResource h (h.goto id { c with phase := request.phase } request.pc) id c := by
  have hnone : c.holder = none := Option.isNone_iff_eq_none.mp hholder
  have hopen : request.phase ≠ .closed := by cases request <;> simp [Request.phase]
  refine .setConn rfl rfl
    ⟨hc.mirrored, fun ch hch => ⟨(hc.presence ch hch).1, .inl ?_⟩, fun hclosed => absurd hclosed hopen,
      fun pc heq => ?_⟩
  · exact hc.presence_subset (by simp [hnone]) hch
  cases heq
  cases request with
  | subscribe channel => exact rfl
  | unsubscribe channel => exact ⟨hopen, trivial⟩
  | join channel => exact rfl
  | leave channel => exact ⟨hopen, trivial⟩
  | unregister => exact rfl

/-- A broadcast adds deliveries for registered connections. -/
theorem Inv.broadcastEnvelopes (hinv : Inv feedResource h) (msg : BroadcastMessage P) :
    Inv feedResource (h.broadcastEnvelopes msg) := by
  refine ⟨fun j x hx => (hinv.conn j x hx).other (fun _ => Iff.rfl) Iff.rfl, hinv.subscribers, fun d hd => ?_,
    hinv.written⟩
  rcases mem_append.mp hd with hd | hd
  · exact hinv.pending d hd
  obtain ⟨target, htarget, hd⟩ := mem_flatMap.mp hd
  obtain ⟨j, hj, rfl⟩ := mem_map.mp hd
  have hincluded := (mem_filter.mp hj).2
  unfold Hub.included at hincluded
  split at hincluded
  · simp at hincluded
  rename_i x hx
  refine ⟨x, hx, rfl, by simpa [Addressed] using hincluded, ?_⟩
  rcases mem_cons.mp htarget with rfl | halias
  · exact .inl rfl
  · exact .inr (feedModule_aliasChannel (Option.mem_toList.mp halias))

/-- A delivery begins with the lock of its connection. -/
theorem begin_ok (hinv : Inv feedResource h) {index : Nat} (hd : h.pending[index]? = some d)
    (hid : h.all d.conn = some c)
    (hholder : c.holder.isNone) :
    StepOk feedResource h ({ h with pending := h.pending.eraseIdx index }.goto d.conn c (.recheck d)) d.conn c := by
  have hc := hinv.conn _ _ hid
  have hnone : c.holder = none := Option.isNone_iff_eq_none.mp hholder
  have hsub : ∀ ch ∈ c.presence, ch ∈ c.channels := fun _ => hc.presence_subset (by simp [hnone])
  obtain ⟨x, hx, ht⟩ := hinv.pending d (mem_of_getElem? hd)
  obtain rfl := Option.some.inj (hid.symm.trans hx)
  have hgoto := hc.goto hsub (show PcOk feedResource d.conn c (.recheck d) from ht)
  refine ⟨_, ⟨if_pos rfl, fun _ hj => if_neg hj, fun _ _ _ => Iff.rfl, fun _ _ => Iff.rfl, rfl, rfl⟩, ?_,
    fun d' hd' => mem_of_mem_eraseIdx hd', fun _ hw => .inl hw⟩
  exact hgoto.other (fun _ => Iff.rfl) Iff.rfl

/-! ## Runs -/

theorem inv_newHub (presenceStore : Bool) : Inv feedResource (NewHub presenceStore) where
  conn := fun _ _ hx => by simp [NewHub] at hx
  subscribers := fun _ _ hj => by simp [NewHub, subs] at hj
  pending := fun _ hd => by simp [NewHub] at hd
  written := fun _ hw => by simp [NewHub] at hw

/-- Every event keeps the invariant. -/
theorem Inv.step (hinv : Inv feedResource h) {event : HubEvent P} (hstep : hubStep feedResource h event = some h') :
    Inv feedResource h' := by
  cases event with
  | register id userID tenantID access =>
    simp only [hubStep] at hstep
    split at hstep
    · simp at hstep
    rename_i hnew
    cases hstep
    exact hinv.register hnew userID tenantID access
  | request id request =>
    simp only [hubStep] at hstep
    split at hstep
    · simp at hstep
    rename_i c hid
    split at hstep
    · rename_i hfree
      cases hstep
      exact (request_ok (hinv.conn _ _ hid) hfree.1 request).inv hinv hid
    · simp at hstep
  | act id answer pick =>
    simp only [hubStep] at hstep
    split at hstep
    · simp at hstep
    rename_i c hid
    split at hstep
    · simp at hstep
    rename_i pc hholder
    exact (act_ok (hinv.conn _ _ hid) hholder hstep).inv hinv hid
  | deliver msg =>
    simp only [hubStep, Hub.deliver] at hstep
    split at hstep
    · cases hstep
      exact hinv
    rename_i hok
    split at hok
    · simp at hok
    cases hok
    cases hstep
    exact hinv.broadcastEnvelopes msg
  | publish msg published =>
    simp only [hubStep, Hub.publish] at hstep
    split at hstep
    · cases hstep
      exact hinv
    rename_i hok
    cases hstep
    split at hok
    · simp at hok
    split at hok
    · cases hok
      exact hinv
    · cases hok
      exact hinv.broadcastEnvelopes msg
  | begin index =>
    simp only [hubStep] at hstep
    split at hstep
    · simp at hstep
    rename_i d hd
    split at hstep
    · simp at hstep
    rename_i c hid
    split at hstep
    · rename_i hfree
      cases hstep
      exact (begin_ok hinv hd hid hfree).inv hinv hid
    · simp at hstep

/-- The invariant holds in every state that a hub reaches. -/
theorem inv_of_run {presenceStore : Bool} {events : List (HubEvent P)}
    (hrun : run (hubStep feedResource) (NewHub presenceStore) events = some h) : Inv feedResource h :=
  run_keeps (Inv feedResource) (fun _ _ _ hinv hstep => hinv.step hstep) (inv_newHub presenceStore) hrun

/-- **The hub in every interleaving.** The two maps of subscriptions mirror each other; presence is on record channels
of the connection, apart from one that is just being left; after `unregister` no map holds the connection; and what is
sent on a guarded channel, notices apart, has passed the channel's check in that delivery, for a connection of the
tenant and user it is for. -/
theorem hub_safe (feedResource : P → List Char) (presenceStore : Bool) (events : List (HubEvent P)) {h : Hub P}
    (hrun : run (hubStep feedResource) (NewHub presenceStore) events = some h) : (∀ id c, h.all id = some c →
      (∀ ch, ch ∈ c.channels ↔ id ∈ subs h.subscribers ch) ∧
      (∀ ch ∈ c.presence, RecordChannel ch ∧ (ch ∈ c.channels ∨ ∃ after, c.holder = some (.leave ch after))) ∧
      (c.holder = none → ∀ ch ∈ c.presence, ch ∈ c.channels) ∧
      (c.phase = .closed →
        id ∉ h.conns ∧ (∀ ch, id ∉ subs h.subscribers ch) ∧ c.channels = [] ∧ c.presence = [])) ∧
    ∀ w ∈ h.written,
      Authorised feedResource w.envelope w.passed ∧ ∃ c, h.all w.delivery.conn = some c ∧ Addressed c w.delivery := by
  have hinv := inv_of_run hrun
  refine ⟨fun id c hid => ?_, hinv.written⟩
  have hc := hinv.conn id c hid
  refine ⟨hc.mirrored, hc.presence, fun hnone ch hch => hc.presence_subset (by simp [hnone]) hch, fun hclosed => ?_⟩
  obtain ⟨hchannels, hconns⟩ := hc.closed hclosed
  refine ⟨hconns, fun ch hmem => ?_, hchannels, ?_⟩
  · have := (hc.mirrored ch).mpr hmem
    rw [hchannels] at this
    simp at this
  rw [eq_nil_iff_forall_not_mem]
  intro ch hch
  have hmem : ch ∈ c.channels := by
    apply hc.presence_subset _ hch
    intro ch' after heq
    exact (hc.holder _ heq).1 hclosed
  rw [hchannels] at hmem
  simp at hmem

/-- A connection joins a record, gets an update, loses the right to read it while a second update is on its way, and
ends. -/
def joinThenRefused : List (HubEvent ℕ) :=
  let record := "record:a:1".toList
  let msg : BroadcastMessage ℕ := ⟨record, "t".toList, [], "record.updated".toList, 5⟩
  let act (answer : Option Bool) : HubEvent ℕ := .act 1 answer record
  [.register 1 "u".toList "t".toList ⟨true, true, true, true, true, true⟩,
    .request 1 (.join record), act (some true), act none, act (some true), act none,
    .deliver msg, .begin 0, act none, act (some true), act none, act none,
    .publish msg false, .begin 0, act none, act (some false), act none, act none, act none, act (some true), act none,
    act none,
    .request 1 .unregister, act none, act none, act none]

theorem hub_safe_joinThenRefused : ∃ h : Hub ℕ,
    run (hubStep fun _ => []) (NewHub true) joinThenRefused = some h ∧
      (∃ c, h.all 1 = some c ∧ c.phase = .closed ∧ 1 ∉ h.conns ∧ c.presence = []) ∧
      h.written.length = 2 ∧ ∀ w ∈ h.written, Authorised (fun _ => []) w.envelope w.passed := by
  have hrun : (run (hubStep fun _ => []) (NewHub true) joinThenRefused).any (fun h =>
      (h.all 1).any (fun c => c.phase = .closed) ∧ h.written.length = 2) = true := by
    decide
  obtain ⟨h, hh, hstate⟩ := (Option.any_eq_true _ _).mp hrun
  rw [decide_eq_true_eq] at hstate
  obtain ⟨c, hc, hphase⟩ := (Option.any_eq_true _ _).mp hstate.1
  have hclosed : c.phase = .closed := of_decide_eq_true hphase
  have hsafe := hub_safe (fun _ => []) true joinThenRefused hh
  obtain ⟨hconns, -, -, hpresence⟩ := (hsafe.1 1 c hc).2.2.2 hclosed
  exact ⟨h, hh, ⟨c, hc, hclosed, hconns, hpresence⟩, hstate.2, fun w hw => (hsafe.2 w hw).1⟩

end

end GoErp.WsHub
