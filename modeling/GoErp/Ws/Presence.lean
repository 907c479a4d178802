import GoErp.Lib.Run
import GoErp.Ws.PresenceMerge

/-!
# `Ws.Presence` — publishing who is at a record

Redis holds the entries of a channel's connections, a revision and a dirty flag. `presence_mutate.lua` changes the
entries; `presence_publish.lua` sends a list of users if the revision is still the one the list was made from.
`flushPresence` (`ws/presence.go`) merges the entries between the two calls. Each script is one step and any number of
flushes may be under way.

A list that is sent is a merge of the entries at its revision, and while the flag is clear a merge of the present ones
(`Inv`); which one can depend on the order in which Redis returns the entries (`presence_depends_on_order`). Keys do
not expire, and `PUBLISH` delivers in order.
-/

namespace GoErp.Ws

open Lib Lib.Run

variable {Text : Type} [LinearOrder Text]

/-- `presenceLifetime`, in nanoseconds -/
def presenceLifetime : Nat := 90 * 1000000000

/-- `presenceUpdateInterval`, in milliseconds -/
def presenceUpdateInterval : Nat := 250

/-- What `mutatePresence` is asked to do. -/
inductive Operation (Text : Type) where
  | join (connection userID name : Text) (avatarURL : Option Text)
  | leave (connection : Text)
  | focus (connection : Text) (field : Option Text)
  | refresh (connection : Text)
  | snapshot

/-- The keys of one channel, and the flushes under way. -/
structure Channel (Text : Type) where
  /-- the entries, by connection -/
  hash : List (Text × PresenceEntry Text)
  revision : Nat
  dirty : Bool
  publishedAt : Nat
  /-- what was sent with `PUBLISH`, with the revision it was made from, the last first -/
  published : List (Nat × List (PresenceUser Text))
  /-- the calls of `flushPresence` between their two scripts: the revision and the users they are to send -/
  flushes : List (Nat × Nat × List (PresenceUser Text))
  /-- ghost: the entries when the revision was made -/
  stored : Nat → List (PresenceEntry Text)

namespace Channel

def initial : Channel Text where
  hash := []
  revision := 0
  dirty := false
  publishedAt := 0
  published := []
  flushes := []
  stored := fun _ => []

def entries (c : Channel Text) : List (PresenceEntry Text) := c.hash.map Prod.snd

/-- `HSET` of a field that exists. -/
def modifyField (hash : List (Text × PresenceEntry Text)) (connection : Text)
    (f : PresenceEntry Text → PresenceEntry Text) : List (Text × PresenceEntry Text) :=
  hash.map fun x => if x.1 = connection then (x.1, f x.2) else x

/-- The first half of `presence_mutate.lua`: the entries and `changed`. -/
def applyOperation (hash : List (Text × PresenceEntry Text)) (now : Nat) :
    Operation Text → List (Text × PresenceEntry Text) × Bool
  | .join connection userID name avatarURL =>
    if (Assoc.get? hash connection).isNone then
      (Assoc.put hash connection
        { userID, name, avatarURL, editingField := none, joinedAt := now, lastSeenAt := now, focusedAt := none }, true)
    else (hash, true)
  | .leave connection => (hash.filter fun x => x.1 ≠ connection, (Assoc.get? hash connection).isSome)
  | .focus connection field =>
    if (Assoc.get? hash connection).isSome then
      (modifyField hash connection
        fun e => { e with lastSeenAt := now, editingField := field, focusedAt := some now }, true)
    else (hash, false)
  | .refresh connection =>
    if (Assoc.get? hash connection).isSome then
      (modifyField hash connection fun e => { e with lastSeenAt := now }, false)
    else (hash, false)
  | .snapshot => (hash, false)

def expired (cutoff : Nat) (x : Text × PresenceEntry Text) : Bool := x.2.lastSeenAt ≤ cutoff

/-- The hash at a new revision, still to be published. -/
def newRevision (c : Channel Text) (hash : List (Text × PresenceEntry Text)) : Channel Text :=
  { c with
    hash
    revision := c.revision + 1
    dirty := true
    stored := fun r => if r = c.revision + 1 then hash.map Prod.snd else c.stored r }

/-- `presence_mutate.lua`. -/
def mutate (c : Channel Text) (operation : Operation Text) (now : Nat) : Channel Text :=
  let applied := applyOperation c.hash now operation
  let cutoff := now - presenceLifetime
  let hash := applied.1.filter fun x => !expired cutoff x
  if applied.2 || applied.1.any (expired cutoff) then c.newRevision hash else { c with hash }

/-- `presence_publish.lua`, at a time in milliseconds. Its result only decides whether another flush is scheduled. -/
def publish (c : Channel Text) (revision : Nat) (users : List (PresenceUser Text)) (now : Nat) : Channel Text :=
  if !c.dirty then c
  else if c.revision ≠ revision then c
  else if now < c.publishedAt + presenceUpdateInterval then c
  else { c with published := (revision, users) :: c.published, dirty := false, publishedAt := now }

end Channel

open Channel

inductive PresenceEvent (Text : Type) where
  /-- `mutatePresence` for a connection, on some instance -/
  | mutate (operation : Operation Text) (now : Nat)
  /-- the first script of a flush; `sorted` is the order in which `mergePresence` goes through the entries -/
  | snapshot (flush now : Nat) (sorted : List (PresenceEntry Text))
  /-- the second script of a flush -/
  | publish (flush now : Nat)

/-- One script; each runs alone. -/
def presenceStep (c : Channel Text) : PresenceEvent Text → Option (Channel Text)
  | .mutate operation now => some (c.mutate operation now)
  | .snapshot flush now sorted =>
    let c := c.mutate .snapshot now
    if !c.dirty then some c
    else if Arrangement PresenceEntry.entryKey c.entries sorted then
      some { c with flushes := Assoc.put c.flushes flush (c.revision, mergeSorted sorted) }
    else none
  | .publish flush now =>
    match Assoc.get? c.flushes flush with
    | none => none
    | some (revision, users) =>
      some ({ c with flushes := c.flushes.filter fun x => x.1 ≠ flush }.publish revision users now)

/-! ## What the scripts keep -/

omit [LinearOrder Text] in
/-- Two contents of the hash that differ in the times last seen only. -/
def SameButSeen (es es' : List (PresenceEntry Text)) : Prop :=
  es.map PresenceEntry.forget = es'.map PresenceEntry.forget

theorem Reflects.congr {es es' : List (PresenceEntry Text)} {users : List (PresenceUser Text)} (h : Reflects es users)
    (hsame : SameButSeen es es') : Reflects es' users := by
  unfold Reflects at h ⊢
  rw [← hsame]
  exact h

/-- An operation that reports no change changes no more than a time last seen. -/
theorem applyOperation_unchanged {hash : List (Text × PresenceEntry Text)} {now : Nat} {operation : Operation Text}
    (h : (applyOperation hash now operation).2 = false) :
    SameButSeen (hash.map Prod.snd) ((applyOperation hash now operation).1.map Prod.snd) := by
  cases operation with
  | join connection userID name avatarURL =>
    simp only [applyOperation] at h
    split at h <;> simp at h
  | leave connection =>
    -- nothing was deleted, so the connection has no entry
    have hnone : ∀ x ∈ hash, x.1 ≠ connection := by
      rintro x hx rfl
      have hsome := Assoc.isSome_get?_of_mem hx
      rw [show (Assoc.get? hash x.1).isSome = false from h] at hsome
      simp at hsome
    have hkept : (applyOperation hash now (.leave connection)).1 = hash := by
      apply List.filter_eq_self.mpr
      intro x hx
      simpa using hnone x hx
    rw [hkept]
    rfl
  | focus connection field =>
    simp only [applyOperation] at h ⊢
    split at h
    · simp at h
    rename_i hget
    rw [if_neg hget]
    rfl
  | refresh connection =>
    unfold SameButSeen applyOperation
    dsimp only
    split
    · rw [modifyField, List.map_map, List.map_map, List.map_map]
      apply List.map_congr_left
      intro x _
      show x.2.forget = PresenceEntry.forget (if x.1 = connection then _ else x).2
      split <;> rfl
    · rfl
  | snapshot => rfl

/-- What a call of `presence_mutate.lua` does: a new revision, or the same entries. -/
theorem mutate_cases (c : Channel Text) (operation : Operation Text) (now : Nat) :
    (∃ hash, c.mutate operation now = c.newRevision hash) ∨
    ∃ hash, c.mutate operation now = { c with hash } ∧ SameButSeen c.entries (hash.map Prod.snd) ∧
      (c.hash = [] → hash = []) := by
  let applied := applyOperation c.hash now operation
  let cutoff := now - presenceLifetime
  by_cases hchanged : (applied.2 || applied.1.any (expired cutoff)) = true
  · exact .inl ⟨_, if_pos hchanged⟩
  refine .inr ⟨_, if_neg hchanged, ?_, ?_⟩
  all_goals
    obtain ⟨happlied, hexpired⟩ := not_or.mp (fun h => hchanged (Bool.or_eq_true _ _ ▸ h))
    have hkept : applied.1.filter (fun x => !expired cutoff x) = applied.1 := by
      apply List.filter_eq_self.mpr
      intro x hx
      cases hx' : expired cutoff x with
      | false => rfl
      | true => exact absurd (List.any_eq_true.mpr ⟨x, hx, hx'⟩) hexpired
    have hsame := applyOperation_unchanged (Bool.not_eq_true _ ▸ happlied)
  · show SameButSeen _ ((applied.1.filter fun x => !expired cutoff x).map Prod.snd)
    rw [hkept]
    exact hsame
  intro hnil
  show applied.1.filter (fun x => !expired cutoff x) = []
  rw [hkept]
  have hlen : applied.1.length = c.hash.length := by simpa using congrArg List.length hsame.symm
  rw [hnil] at hlen
  exact List.length_eq_zero_iff.mp hlen

omit [LinearOrder Text] in
theorem publish_cases (c : Channel Text) (revision : Nat) (users : List (PresenceUser Text)) (now : Nat) :
    c.publish revision users now = c ∨
      revision = c.revision ∧ c.publish revision users now =
        { c with published := (revision, users) :: c.published, dirty := false, publishedAt := now } := by
  unfold publish
  split
  · exact .inl rfl
  split
  · exact .inl rfl
  rename_i hrevision
  split
  · exact .inl rfl
  · exact .inr ⟨(not_not.mp hrevision).symm, rfl⟩

/-- A list made from a revision that exists is a merge of the entries at that revision. -/
def MadeFrom (c : Channel Text) (p : Nat × List (PresenceUser Text)) : Prop :=
  p.1 ≤ c.revision ∧ Reflects (c.stored p.1) p.2

structure Inv (c : Channel Text) : Prop where
  /-- since the revision was made only times last seen have changed -/
  stored : SameButSeen (c.stored c.revision) c.entries
  flushes : ∀ flush p, Assoc.get? c.flushes flush = some p → MadeFrom c p
  published : ∀ p ∈ c.published, MadeFrom c p
  /-- while the flag is clear, the last publication is of this revision -/
  clear : c.dirty = false →
    match c.published with
    | [] => c.hash = []
    | p :: _ => p.1 = c.revision

theorem inv_initial : Inv (initial : Channel Text) where
  stored := rfl
  flushes := fun _ _ h => by simp [initial] at h
  published := fun _ h => by simp [initial] at h
  clear := fun _ => rfl

variable {c : Channel Text}

theorem Inv.mutate (hc : Inv c) (operation : Operation Text) (now : Nat) : Inv (c.mutate operation now) := by
  rcases mutate_cases c operation now with ⟨hash, heq⟩ | ⟨hash, heq, hsame, hnil⟩
  · -- a new revision: the lists of earlier revisions keep theirs, and the flag is set
    rw [heq]
    have hmade : ∀ p, MadeFrom c p → MadeFrom (c.newRevision hash) p := by
      intro p ⟨hle, hp⟩
      have hne : p.1 ≠ c.revision + 1 := by omega
      have hstored : (c.newRevision hash).stored p.1 = c.stored p.1 := if_neg hne
      exact ⟨Nat.le_succ_of_le hle, hstored ▸ hp⟩
    have hstored : (c.newRevision hash).stored (c.revision + 1) = hash.map Prod.snd := if_pos rfl
    refine ⟨congrArg _ hstored, fun flush p h => hmade p (hc.flushes flush p h), fun p h => hmade p (hc.published p h),
      fun h => ?_⟩
    exact absurd (show true = false from h) (by simp)
  · rw [heq]
    refine ⟨hc.stored.trans hsame, hc.flushes, hc.published, fun hdirty => ?_⟩
    have hclear := hc.clear hdirty
    show match c.published with
      | [] => hash = []
      | p :: _ => p.1 = c.revision
    revert hclear
    cases c.published with
    | nil => exact hnil
    | cons p ps => exact id

theorem Inv.step {c' : Channel Text} {event : PresenceEvent Text} (hc : Inv c) (h : presenceStep c event = some c') :
    Inv c' := by
  cases event with
  | mutate operation now =>
    cases h
    exact hc.mutate operation now
  | snapshot flush now sorted =>
    have hm := hc.mutate .snapshot now
    simp only [presenceStep] at h
    split at h
    · cases h
      exact hm
    split at h
    · rename_i hsorted
      cases h
      refine ⟨hm.stored, fun f p hp => ?_, hm.published, hm.clear⟩
      rw [Assoc.get?_put] at hp
      split at hp
      · -- the new list is a merge of the entries just read
        cases hp
        have hmerges : Merges (c.mutate .snapshot now).entries (mergeSorted sorted) := ⟨sorted, hsorted, rfl⟩
        exact ⟨Nat.le_refl _, hmerges.reflects.congr hm.stored.symm⟩
      · exact hm.flushes f p hp
    · simp at h
  | publish flush now =>
    simp only [presenceStep] at h
    split at h
    · simp at h
    rename_i revision users hget
    cases h
    have hmade : MadeFrom c (revision, users) := hc.flushes flush _ hget
    have hrest : Inv { c with flushes := c.flushes.filter fun x => x.1 ≠ flush } := by
      refine ⟨hc.stored, fun f p hp => ?_, hc.published, hc.clear⟩
      by_cases hf : f = flush
      · rw [hf, Assoc.get?_filter_self] at hp
        simp at hp
      · rw [Assoc.get?_filter_ne _ hf] at hp
        exact hc.flushes f p hp
    rcases publish_cases { c with flushes := c.flushes.filter fun x => x.1 ≠ flush } revision users now with
      heq | ⟨hrevision, heq⟩
    · rw [heq]
      exact hrest
    rw [heq]
    refine ⟨hrest.stored, hrest.flushes, fun p hp => ?_, fun _ => hrevision⟩
    rcases List.mem_cons.mp hp with rfl | hp
    · exact hmade
    · exact hc.published p hp

theorem inv_of_run {events : List (PresenceEvent Text)} (hrun : run presenceStep initial events = some c) : Inv c :=
  run_keeps Inv (fun _ _ _ hc h => hc.step h) inv_initial hrun

/-! ## Convergence -/

/-- The users are a merge of the entries, and the only one if the ties agree; times last seen are ignored. -/
def Publishes (entries : List (PresenceEntry Text)) (users : List (PresenceUser Text)) : Prop :=
  Reflects entries users ∧
    (TiesAgree entries → ∀ us, Merges entries us → us.map PresenceUser.forget = users.map PresenceUser.forget)

theorem Reflects.publishes {entries : List (PresenceEntry Text)} {users : List (PresenceUser Text)}
    (h : Reflects entries users) : Publishes entries users :=
  ⟨h, fun hties _ hus => h.eq_of_tiesAgree hties hus⟩

/-- **Publications follow the stored entries.** Each list sent is a merge of the entries at the revision it was made
from; while the flag is clear the last one is a merge of the present entries, or none was sent and there are none. A
merge is determined by the entries exactly if their ties agree. -/
theorem presence_converges (events : List (PresenceEvent Text)) {c : Channel Text}
    (hrun : run presenceStep initial events = some c) : (∀ p ∈ c.published, Publishes (c.stored p.1) p.2) ∧
      (c.dirty = false →
        c.published = [] ∧ c.hash = [] ∨ ∃ p rest, c.published = p :: rest ∧ Publishes c.entries p.2) ∧
      ∀ entries : List (PresenceEntry Text),
        (∀ us us', Merges entries us → Merges entries us' → us = us') ↔ TiesAgree entries := by
  have hc := inv_of_run hrun
  refine ⟨fun p hp => (hc.published p hp).2.publishes, fun hdirty => ?_, merges_unique_iff⟩
  have hclear := hc.clear hdirty
  cases hpub : c.published with
  | nil =>
    rw [hpub] at hclear
    exact .inl ⟨rfl, hclear⟩
  | cons p rest =>
    rw [hpub] at hclear
    have hmade := (hc.published p (by simp [hpub])).2
    rw [show p.1 = c.revision from hclear] at hmade
    exact .inr ⟨p, rest, rfl, (hmade.congr hc.stored).publishes⟩

/-- A second connection joins while a flush is between its scripts: its list is not sent, the next flush's is. -/
def overtakenFlush : List (PresenceEvent ℕ) :=
  let first : PresenceEntry ℕ := ⟨⟨7, 8, none, none, 100, 100⟩, none⟩
  let second : PresenceEntry ℕ := ⟨⟨9, 9, none, none, 101, 101⟩, none⟩
  [.mutate (.join 1 7 8 none) 100, .snapshot 1 100 [first], .mutate (.join 2 9 9 none) 101, .publish 1 1000,
    .snapshot 2 102 [first, second], .publish 2 1000]

theorem presence_converges_overtaken : ∃ c : Channel ℕ, run presenceStep initial overtakenFlush = some c ∧
    c.dirty = false ∧ c.published.length = 1 ∧ TiesAgree c.entries ∧
    ∃ p rest, c.published = p :: rest ∧ Publishes c.entries p.2 := by
  refine ⟨_, rfl, rfl, rfl, by decide, ?_⟩
  rcases (presence_converges overtakenFlush rfl).2.1 rfl with h | h
  · exact absurd h.1 (List.cons_ne_nil _ _)
  · exact h

/-- Two connections of a user join at the same time, with different avatars. -/
def tiedJoins : List (PresenceEvent ℕ) :=
  [.mutate (.join 1 7 8 (some 1)) 100, .mutate (.join 2 7 8 (some 2)) 100]

theorem presence_depends_on_order : ¬ ∀ (events : List (PresenceEvent ℕ)) (c : Channel ℕ),
    run presenceStep initial events = some c →
      ∀ us us', Merges c.entries us → Merges c.entries us' → us = us' := by
  intro h
  have hties := (merges_unique_iff _).mp (h tiedJoins _ rfl)
  exact absurd hties (by decide)

end GoErp.Ws
