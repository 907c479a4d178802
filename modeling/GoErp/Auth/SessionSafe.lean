import GoErp.Auth.SessionInv

/-!
# `Auth.SessionSafe` — revocation and replay under every interleaving

A pass of `RevokeFamily` that matches no row is taken for the end of the family. It is one as long as no other call of
`RevokeFamily` runs on the family (`Proc.Settles`, `sessions_safe`). With two calls, one may find the row revoked by
the other before either has seen the successor (`overlapping_revokes_miss_successor`).

A replay misses a successor that is committed while it waits for the rotated row (`waiting_replay_misses_successor`).
Where its lookup comes upon no rotated row, it leaves no live row but of its own device (`Proc.Watches`,
`replay_revokes_family`).
-/

namespace GoErp.Session

open Lib Lib.Run List

variable {rows rows' : Rows} {p p' : Proc}

/-! ## Revoked families -/

/-- Every row of the family is revoked. -/
def AllRevoked (rows : Rows) (f : String) : Prop := ∀ id r, rows.get? id = some r → r.family = f → r.revoked = true

/-- The commit revokes no row of the family. -/
def Spares (rows rows' : Rows) (f : String) : Prop :=
  ∀ id r r', rows.get? id = some r → rows'.get? id = some r' → r.family = f → r.revoked = false → r'.revoked = false

theorem Spares.refl (rows : Rows) (f : String) : Spares rows rows f := by
  intro id r r' hr hr' _ hrev
  rw [hr] at hr'
  cases hr'
  exact hrev

variable {locked born : List String} {f : String}

/-- A revoked family has no row to rotate, hence no successor to come. -/
theorem AllRevoked.frame (hw : Writes rows rows' locked born)
    (hborn : f ∉ born) (h : AllRevoked rows f) : AllRevoked rows' f := by
  intro id r' hr' hf
  cases hr : rows.get? id with
  | some r =>
    obtain ⟨r₁, hr₁, hlater, _⟩ := hw.keep id r hr
    rw [hr'] at hr₁
    cases hr₁
    exact hlater.revoked (h id r hr (hlater.family.symm.trans hf))
  | none =>
    rcases hw.new id r' hr' hr with hb | ⟨k, rk, _, _, hrk, hlk, hfk, _⟩
    · exact absurd (hf ▸ hb) hborn
    have hrevoked := h k rk hrk (hfk.trans hf)
    rw [(Row.live_iff.mp hlk).2] at hrevoked
    cases hrevoked

/-- Rows of another family are spared. -/
theorem markRevoked_spares {ids : List String} {g : String} (hids : ∀ id ∈ ids, InFamily rows g id) (hne : g ≠ f) :
    Spares rows (markRevoked rows ids) f := by
  intro id r r' hr hr' hf hrev
  have hid : id ∉ ids := by
    intro hid
    obtain ⟨r₀, hr₀, hg⟩ := hids id hid
    rw [hr] at hr₀
    cases hr₀
    exact hne (hg.symm.trans hf)
  rw [get?_markRevoked, hr, Option.map_some, if_neg hid] at hr'
  cases hr'
  exact hrev

/-- The rows that are listed are revoked; here all of a family. -/
theorem markRevoked_allRevoked {ids : List String} (hids : ∀ id, InFamily rows f id → id ∈ ids) :
    AllRevoked (markRevoked rows ids) f := by
  intro id r' hr' hf
  obtain ⟨r, hr, hlater⟩ := later_of_markRevoked hr'
  have hid : id ∈ ids := hids id ⟨r, hr, hlater.family.symm.trans hf⟩
  rw [get?_markRevoked, hr, Option.map_some, if_pos hid] at hr'
  cases hr'
  rfl

variable {a : RotateArgs}

/-- The replay's own sweep covers its family. -/
theorem sweep_allRevoked {q k : String} {revoked : List String}
    (hp : (Proc.rotate a (.sweep q k f [] revoked)).Ok rows) : AllRevoked (markRevoked rows revoked) f :=
  markRevoked_allRevoked fun id hid => ((hp.2 id).mp hid).resolve_left not_mem_nil

/-- What a commit does to a family that its call is not revoking: it revokes none of the rows, or all of them. -/
theorem finish_spares (hp : p.Ok rows) (h : Finishes rows p rows' p') (hf : p.revoking f = false) :
    Spares rows rows' f ∨ AllRevoked rows' f := by
  cases h with
  | notFound | noHolder | settled => exact Or.inl (Spares.refl rows f)
  | rotate hnew _ =>
    obtain ⟨hr, _, _⟩ := hp
    refine Or.inl fun id' r₀ r' hr₀ hr' _ hrev => ?_
    rcases get?_rotatedRows hr hr' with ⟨rfl, _⟩ | ⟨rfl, rfl⟩ | ⟨_, hsame⟩
    · simp [hnew] at hr₀
    · rw [hr] at hr₀
      cases hr₀
      exact hrev
    rw [hsame] at hr₀
    cases hr₀
    exact hrev
  | @sweep _ _ _ g _ =>
    by_cases hgf : g = f
    · exact Or.inr (hgf ▸ sweep_allRevoked hp)
    · exact Or.inl (markRevoked_spares (fun id hid => (hp.2 id).mpr (Or.inr hid)) hgf)
  | pass _ => exact Or.inl (markRevoked_spares (fun id hid => hp id (Or.inr hid)) (of_decide_eq_false hf))

/-! ## A pass that matches nothing -/

/-- While a pass has matched no row, the family is revoked or its candidates are still to be matched. -/
def Proc.Settles (rows : Rows) : Proc → Prop
  | .revoke f (.pass _ todo matched) => matched = [] → AllRevoked rows f ∨
      (todo ≠ [] ∧ ∀ id ∈ todo, ∃ r, rows.get? id = some r ∧ r.family = f ∧ r.revoked = false)
  | .revoke f (.done _) => AllRevoked rows f
  | _ => True

/-- What a call has settled stays settled under what another call commits. -/
theorem Proc.Settles.frame (hw : Writes rows rows' locked born) (hborn : ∀ f ∈ born, p.revokes f = false)
    (hspares : ∀ f, p.revoking f = true → Spares rows rows' f ∨ AllRevoked rows' f) (hp : p.Settles rows) :
    p.Settles rows' := by
  have hnot : ∀ f, p.revokes f = true → f ∉ born := by
    intro f hf hmem
    rw [hborn f hmem] at hf
    cases hf
  match p with
  | .revoke f (.done all) => exact AllRevoked.frame hw (hnot f (decide_eq_true rfl)) hp
  | .revoke f (.pass all todo matched) =>
    intro hm
    rcases hp hm with hall | ⟨hne, htodo⟩
    · exact Or.inl (AllRevoked.frame hw (hnot f (decide_eq_true rfl)) hall)
    rcases hspares f (decide_eq_true rfl) with hsp | hall
    · refine Or.inr ⟨hne, fun id hid => ?_⟩
      obtain ⟨r, hr, hf, hrev⟩ := htodo id hid
      obtain ⟨r', hr', hlater, _⟩ := hw.keep id r hr
      exact ⟨r', hr', hlater.family.trans hf, hsp id r r' hr hr' hf hrev⟩
    · exact Or.inl hall
  | .rotate _ _ | .revoke _ (.start _) | .revoke _ .failed => trivial

theorem begin_settles (h : Begins rows p p') : p'.Settles rows := by
  cases h with
  | find | current | sweep => trivial
  | @pass f all =>
    intro _
    by_cases hnil : idsWhere rows (fun r => r.family = f && !r.revoked) = []
    · refine Or.inl fun id r hr hf => ?_
      by_contra hrev
      have hmem : id ∈ idsWhere rows (fun r => r.family = f && !r.revoked) :=
        mem_idsWhere.mpr ⟨r, hr, by simp [hf, hrev]⟩
      simp [hnil] at hmem
    refine Or.inr ⟨hnil, fun id hid => ?_⟩
    obtain ⟨r, hr, hcond⟩ := mem_idsWhere.mp hid
    exact ⟨r, hr, by simpa using hcond⟩

variable {id : String} {r : Row}

/-- Locking and reading a row unsettles nothing. -/
theorem visit_settles (hp : p.Settles rows) (hr : rows.get? id = some r)
    (h : Visits rows id r p p') : p'.Settles rows := by
  cases h with
  | presented | passedOver | ownDevice | holder | sweep => trivial
  | unmatched hid hrev =>
    intro hm
    rcases hp hm with hall | ⟨_, htodo⟩
    · exact Or.inl hall
    -- a row revoked since the pass began: then all of them are
    obtain ⟨r₀, hr₀, _, hrev₀⟩ := htodo id hid
    rw [hr] at hr₀
    cases hr₀
    rw [hrev] at hrev₀
    cases hrev₀
  | matched _ _ =>
    intro hm
    simp at hm

/-- The commit of a call settles what it promises. -/
theorem finish_settles (hp : p.Settles rows) (h : Finishes rows p rows' p') : p'.Settles rows' := by
  cases h with
  | notFound | rotate | noHolder | sweep | pass => trivial
  | settled => exact (hp rfl).resolve_right fun hne => hne.1 rfl

/-- A call that has failed promises nothing. -/
theorem aborted_settles (h : Aborted p') : p'.Settles rows := by
  cases h <;> trivial

/-! ### A call goes on revoking the family it began with -/

theorem begin_revoking (h : Begins rows p p') (hf : p'.revoking f = true) : p.revoking f = true := by
  cases h <;> exact hf

theorem visit_revoking (h : Visits rows id r p p') (hf : p'.revoking f = true) : p.revoking f = true := by
  cases h <;> exact hf

theorem finish_revoking (h : Finishes rows p rows' p') (hf : p'.revoking f = true) : p.revoking f = true := by
  cases h with
  | settled => cases hf
  | _ => exact hf

theorem aborted_revoking (h : Aborted p') (f : String) : p'.revoking f = false := by
  cases h <;> rfl

/-! ## Runs without overlapping revocations -/

/-- The invariant with what the calls have settled, where each family is being revoked by one call. -/
structure Settled (s : State) : Prop where
  inv : Inv s
  settles : ∀ (i : Nat) p, s.procs[i]? = some p → p.Settles s.rows
  alone : ∀ (i j : Nat) p q f, s.procs[i]? = some p → s.procs[j]? = some q → p.revoking f = true →
    q.revoking f = true → i = j

theorem settled_empty : Settled .empty where
  inv := inv_empty
  settles i p h := by simp [State.empty] at h
  alone i j p q f h := by simp [State.empty] at h

variable {s : State} {i : Nat}

/-- One call moves, with what it commits. -/
theorem Settled.change (hs : Settled s) (hp : s.procs[i]? = some p) (hinv : Inv { s.setProc i p' with rows := rows' })
    (hw : Writes s.rows rows' p.locks [])
    (hspares : ∀ f, p.revoking f = false → Spares s.rows rows' f ∨ AllRevoked rows' f) (hp' : p'.Settles rows')
    (hrevoking : ∀ f, p'.revoking f = true → p.revoking f = true) : Settled { s.setProc i p' with rows := rows' } := by
  refine ⟨hinv, ?_, ?_⟩
  · intro j q hq
    rcases getElem?_set hq with ⟨_, rfl⟩ | ⟨hji, hq⟩
    · exact hp'
    refine (hs.settles j q hq).frame hw (fun f hf => absurd hf not_mem_nil) fun f hf => ?_
    -- the call that commits is not revoking the family of another that is
    apply hspares f
    by_contra hpf
    exact hji (hs.alone j i q p f hq hp hf (by simpa using hpf))
  · intro j k q₁ q₂ f h₁ h₂ hf₁ hf₂
    rcases getElem?_set h₁ with ⟨rfl, rfl⟩ | ⟨_, hq₁⟩
    · rcases getElem?_set h₂ with ⟨rfl, _⟩ | ⟨_, hq₂⟩
      · rfl
      · exact hs.alone _ _ _ _ f hp hq₂ (hrevoking f hf₁) hf₂
    rcases getElem?_set h₂ with ⟨rfl, rfl⟩ | ⟨_, hq₂⟩
    · exact hs.alone _ _ _ _ f hq₁ hp hf₁ (hrevoking f hf₂)
    · exact hs.alone _ _ _ _ f hq₁ hq₂ hf₁ hf₂

/-- A call comes, and revokes no family that another is revoking. -/
theorem Settled.spawn (hs : Settled s) (hinv : Inv { s with procs := s.procs ++ [p] })
    (hp : p.Settles s.rows) (halone : ∀ f, p.revoking f = true → s.procs.any (·.revoking f) = false) :
    Settled { s with procs := s.procs ++ [p] } := by
  have hno : ∀ (j : Nat) q f, s.procs[j]? = some q → p.revoking f = true → q.revoking f = false := by
    intro j q f hq hf
    have hany := any_eq_false.mp (halone f hf) q (mem_of_getElem? hq)
    simpa using hany
  refine ⟨hinv, ?_, ?_⟩
  · intro j q hq
    rcases getElem?_append_one hq with hq | ⟨_, rfl⟩
    · exact hs.settles j q hq
    · exact hp
  intro j k q₁ q₂ f h₁ h₂ hf₁ hf₂
  rcases getElem?_append_one h₁ with hq₁ | ⟨hj, rfl⟩
  · rcases getElem?_append_one h₂ with hq₂ | ⟨_, rfl⟩
    · exact hs.alone j k q₁ q₂ f hq₁ hq₂ hf₁ hf₂
    · rw [hno j q₁ f hq₁ hf₂] at hf₁
      cases hf₁
  rcases getElem?_append_one h₂ with hq₂ | ⟨hk, _⟩
  · rw [hno k q₂ f hq₂ hf₁] at hf₂
    cases hf₂
  · rw [hj, hk]

variable {e : Event}

/-- Every event keeps it, if calls of `RevokeFamily` on one family do not overlap. -/
theorem Settled.step {s' : State} (hs : Settled s) (halone : RevokesAlone s e)
    (hstep : step s e = some s') : Settled s' := by
  have hsteps := step_cases hstep
  have hinv := hs.inv.step hsteps
  have hsame : ∀ f, Spares s.rows s.rows f ∨ AllRevoked s.rows f := fun f => Or.inl (Spares.refl s.rows f)
  cases hsteps with
  | @issue id device hash login createdAt expiresAt hid hhash =>
    have hw := insert_writes (r := ⟨id, device, hash, login, createdAt, expiresAt, false, false⟩) hid rfl
    refine ⟨hinv, fun j q hq => ?_, hs.alone⟩
    refine (hs.settles j q hq).frame hw (fun f hf => ?_) fun f _ => Or.inl ?_
    · rw [mem_singleton.mp hf]
      exact (idFree_iff.mp hid).2.2 q (mem_of_getElem? hq)
    intro k r r' hr hr' _ hrev
    obtain ⟨r₁, hr₁, _, heq⟩ := hw.keep k r hr
    rw [hr'] at hr₁
    cases hr₁
    rw [heq not_mem_nil]
    exact hrev
  | rotate => exact hs.spawn hinv trivial fun f hf => by cases hf
  | @revokeFamily f =>
    refine hs.spawn hinv trivial fun g hg => ?_
    obtain rfl : f = g := of_decide_eq_true hg
    exact halone
  | begin hp h =>
    exact hs.change hp hinv (Writes.refl _ _) (fun f _ => hsame f) (begin_settles h) fun f => begin_revoking h
  | @visit i id p p' r hp hr hfree h =>
    exact hs.change hp hinv (Writes.refl _ _) (fun f _ => hsame f) (visit_settles (hs.settles i p hp) hr h)
      fun f => visit_revoking h
  | @finish i p p' rows' hp h =>
    have hok := hs.inv.ok i p hp
    exact hs.change hp hinv (finish_ok hs.inv.rows hok h).1 (fun f => finish_spares hok h)
      (finish_settles (hs.settles i p hp) h) fun f => finish_revoking h
  | abort hp h =>
    refine hs.change hp hinv (Writes.refl _ _) (fun f _ => hsame f) (aborted_settles h) fun f hf => ?_
    rw [aborted_revoking h f] at hf
    cases hf

/-- **Runs keep the invariant.** -/
theorem inv_along (es : List Event) : Along step (fun s _ => Inv s) .empty es :=
  along_invariant (fun _ _ _ h _ hs => h.step (step_cases hs)) (fun _ _ h _ => h) inv_empty
    (along_of_forall (fun _ _ _ => trivial) _)

/-- What is settled is safe. -/
theorem Settled.safe (hs : Settled s) : Safe s where
  one_live := hs.inv.rows.live
  one_successor := hs.inv.once
  revoked i _ _ h := hs.settles i _ h

/-- **Families are safe in every run in which calls of `RevokeFamily` on one family do not overlap.** -/
theorem sessions_safe {es : List Event} {s : State} (halone : Along step RevokesAlone .empty es)
    (hrun : run step .empty es = some s) : Safe s :=
  (run_invariant (fun _ _ _ hs halone h => hs.step halone h) settled_empty halone hrun).safe

/-! ### Two revocations at once -/

/-- A login without a second factor. -/
def login : Login := ⟨"u1", "t1", none, none, none, false, false⟩

/-- The holder of the family exchanges one token for the next. -/
def exchange (presentedHash newSessionID newHash device : String) : RotateArgs :=
  ⟨presentedHash, newSessionID, newHash, device, 0, fun _ _ _ => some 10⟩

/-- A revocation waits for the row that a rotation holds, and takes two more passes. -/
def revokedOnce : List Event :=
  [.issue "s1" "d1" "h1" login 0 5, .rotate (exchange "h1" "s2" "h2" "d1"), .begin 0, .visit 0 "s1",
    .revokeFamily "s1", .begin 1, .finish 0, .visit 1 "s1", .finish 1,
    .begin 1, .visit 1 "s2", .finish 1, .begin 1, .finish 1]

theorem sessions_safe_waiting : ∃ s, run step .empty revokedOnce = some s ∧ Safe s := by
  have halone : Along step RevokesAlone .empty revokedOnce := by decide
  have hsome : (run step .empty revokedOnce).isSome = true := by decide
  obtain ⟨s, hrun⟩ := Option.isSome_iff_exists.mp hsome
  exact ⟨s, hrun, sessions_safe halone hrun⟩

/-- Two revocations wait for the row: the second to get it finds it revoked, and has not seen the successor. -/
def revokedTwice : List Event :=
  [.issue "s1" "d1" "h1" login 0 5, .rotate (exchange "h1" "s2" "h2" "d1"), .begin 0, .visit 0 "s1",
    .revokeFamily "s1", .revokeFamily "s1", .begin 1, .begin 2, .finish 0,
    .visit 2 "s1", .finish 2, .visit 1 "s1", .finish 1]

theorem revoke_done (hf : p.revokes f = true) (hdone : p.isDone = true) : ∃ all, p = .revoke f (.done all) := by
  match p with
  | .revoke g (.done all) => exact ⟨all, by rw [of_decide_eq_true hf]⟩
  | .revoke g (.start _) | .revoke g (.pass _ _ _) | .revoke g .failed => cases hdone
  | .rotate _ _ => cases hf

theorem overlapping_revokes_miss_successor :
    ¬ ∀ (es : List Event) (s : State), run step .empty es = some s → Safe s := by
  intro h
  have hend : ((run step .empty revokedTwice).map fun s =>
      (s.procs[1]?).any (fun p => p.revokes "s1" && p.isDone) &&
        (s.rows.get? "s2").any fun r => r.family = "s1" && !r.revoked) = some true := by decide
  obtain ⟨s, hrun, hs⟩ := Option.map_eq_some_iff.mp hend
  obtain ⟨hproc, hrow⟩ := Bool.and_eq_true_iff.mp hs
  obtain ⟨p, hp, hdone⟩ := (Option.any_eq_true _ _).mp hproc
  obtain ⟨r, hr, hcond⟩ := (Option.any_eq_true _ _).mp hrow
  obtain ⟨hrevokes, hdone⟩ := Bool.and_eq_true_iff.mp hdone
  obtain ⟨hfam, hunrevoked⟩ := Bool.and_eq_true_iff.mp hcond
  obtain ⟨all, rfl⟩ := revoke_done hrevokes hdone
  have hrevoked := (h _ s hrun).revoked 1 "s1" all hp "s2" r hr (of_decide_eq_true hfam)
  rw [hrevoked] at hunrevoked
  cases hunrevoked

/-! ## Replays

While the holder is looked up, a live row of the family is among the candidates, or one of them has been rotated. -/

/-- A replay that is still looking for the family's row has every live row on its list, or a rotated one. -/
def Proc.Watches (rows : Rows) : Proc → Prop
  | .rotate _ (.current _ f todo) => ∀ id, LiveIn rows f id → id ∈ todo ∨
      ∃ k ∈ todo, ∃ r, rows.get? k = some r ∧ r.rotated = true
  | _ => True

/-- A commit of another call keeps a live row on the list, or leaves a rotated one there. -/
theorem Proc.Watches.frame (hw : Writes rows rows' locked born) (hok : p.Ok rows)
    (hp : p.Watches rows) : p.Watches rows' := by
  match p with
  | .rotate a (.current q f todo) =>
    rintro id ⟨r', hr', hl', rfl⟩
    -- a rotated candidate stays one
    have hrotated : (∃ k ∈ todo, ∃ r, rows.get? k = some r ∧ r.rotated = true) →
        ∃ k ∈ todo, ∃ r, rows'.get? k = some r ∧ r.rotated = true := by
      rintro ⟨k, hk, r, hr, hrot⟩
      obtain ⟨r₁, hr₁, hlater, _⟩ := hw.keep k r hr
      exact ⟨k, hk, r₁, hr₁, hlater.rotated hrot⟩
    rcases hw.live hr' hl' with ⟨r, hr, hl, hf⟩ | hb | ⟨k, rk, rk', _, hrk, hlk, hfk, hrk', hrot⟩
    · exact (hp id ⟨r, hr, hl, hf⟩).imp_right hrotated
    · obtain ⟨rq, hrq, hfq⟩ := hok.1
      exact absurd hfq (hw.fresh _ hb q rq hrq)
    -- a successor: the row it replaces was a candidate, and is rotated now
    rcases hp k ⟨rk, hrk, hlk, hfk⟩ with hk | hk
    · exact Or.inr ⟨k, hk, rk', hrk', hrot⟩
    · exact Or.inr (hrotated hk)
  | .revoke _ _ | .rotate _ .start | .rotate _ (.find _) | .rotate _ (.rotate _ _ _) | .rotate _ (.replay _ _)
  | .rotate _ (.compromise _ _ _) | .rotate _ (.sweep _ _ _ _ _) | .rotate _ (.done _) | .rotate _ .failed => trivial

theorem begin_watches (h : Begins rows p p') : p'.Watches rows := by
  cases h with
  | find | sweep | pass => trivial
  | current =>
    rintro id ⟨r, hr, hl, hf⟩
    exact Or.inl (mem_idsWhere.mpr ⟨r, hr, by simp [hf, hl]⟩)

theorem presented_watches (a : RotateArgs) (id : String) (r : Row) :
    (Proc.rotate a (presented a rows id r)).Watches rows := by
  unfold presented
  split
  · trivial
  split
  · trivial
  split
  · trivial
  split
  · trivial
  split <;> trivial

/-- A row that is passed over was not live, unless it has been rotated. -/
theorem visit_watches (hp : p.Watches rows) (hr : rows.get? id = some r)
    (h : Visits rows id r p p') (hrot : p.seeksHolder = true → r.rotated = false) : p'.Watches rows := by
  cases h with
  | presented _ => exact presented_watches _ id r
  | ownDevice | holder | sweep | unmatched | matched => trivial
  | passedOver _ hl =>
    -- the row passed over is neither live nor rotated
    intro id' hid'
    rcases hp id' hid' with hmem | ⟨k, hk, rk, hrk, hrotk⟩
    · have hne : id' ≠ id := by
        rintro rfl
        obtain ⟨r', hr', hl', _⟩ := hid'
        rw [hr] at hr'
        cases hr'
        rw [hl] at hl'
        cases hl'
      exact Or.inl (mem_filter.mpr ⟨hmem, decide_eq_true hne⟩)
    · have hne : k ≠ id := by
        rintro rfl
        rw [hr] at hrk
        cases hrk
        rw [hrot rfl] at hrotk
        cases hrotk
      exact Or.inr ⟨k, mem_filter.mpr ⟨hk, decide_eq_true hne⟩, rk, hrk, hrotk⟩

theorem finish_watches (h : Finishes rows p rows' p') : p'.Watches rows' := by
  cases h <;> trivial

theorem aborted_watches (h : Aborted p') : p'.Watches rows := by
  cases h <;> trivial

/-- The invariant, and that every replay watches its family. -/
structure Watching (s : State) : Prop where
  inv : Inv s
  watches : ∀ (i : Nat) p, s.procs[i]? = some p → p.Watches s.rows

theorem watching_empty : Watching .empty where
  inv := inv_empty
  watches i p h := by simp [State.empty] at h

theorem Watching.change (hs : Watching s) (hinv : Inv { s.setProc i p' with rows := rows' })
    (hw : Writes s.rows rows' locked []) (hp' : p'.Watches rows') : Watching { s.setProc i p' with rows := rows' } := by
  refine ⟨hinv, fun j q hq => ?_⟩
  rcases getElem?_set hq with ⟨_, rfl⟩ | ⟨_, hq⟩
  · exact hp'
  · exact (hs.watches j q hq).frame hw (hs.inv.ok j q hq)

theorem Watching.spawn (hs : Watching s) (hinv : Inv { s with procs := s.procs ++ [p] })
    (hp : p.Watches s.rows) : Watching { s with procs := s.procs ++ [p] } := by
  refine ⟨hinv, fun j q hq => ?_⟩
  rcases getElem?_append_one hq with hq | ⟨_, rfl⟩
  · exact hs.watches j q hq
  · exact hp

theorem not_rotated_of_holderNotRotated (h : HolderNotRotated s (.visit i id)) (hp : s.procs[i]? = some p)
    (hr : s.rows.get? id = some r) (hseeks : p.seeksHolder = true) : r.rotated = false := by
  have hany := h (by rw [hp]; exact hseeks)
  rw [hr] at hany
  exact hany

/-- Every event keeps it, if the row that a waiting replay gets has not been rotated meanwhile. -/
theorem Watching.step {s' : State} (hs : Watching s) (hrot : HolderNotRotated s e)
    (hstep : step s e = some s') : Watching s' := by
  have hsteps := step_cases hstep
  have hinv := hs.inv.step hsteps
  cases hsteps with
  | issue hid _ => exact ⟨hinv, fun j q hq => (hs.watches j q hq).frame (insert_writes hid rfl) (hs.inv.ok j q hq)⟩
  | rotate => exact hs.spawn hinv trivial
  | revokeFamily => exact hs.spawn hinv trivial
  | begin hp h => exact hs.change hinv (Writes.refl _ []) (begin_watches h)
  | visit hp hr hfree h =>
    apply hs.change hinv (Writes.refl _ [])
    exact visit_watches (hs.watches _ _ hp) hr h (not_rotated_of_holderNotRotated hrot hp hr)
  | @finish i p p' rows' hp h =>
    exact hs.change hinv (finish_ok hs.inv.rows (hs.inv.ok i p hp) h).1 (finish_watches h)
  | abort hp h => exact hs.change hinv (Writes.refl _ []) (aborted_watches h)

/-! ### The end of a replay -/

theorem not_isDone_of_replays (h : p.replays = some (a, f)) : p.isDone = false := by
  unfold Proc.replays at h
  split at h <;> cases h <;> rfl

/-- A replay that ends with a visit has come upon a row of its own device, the only live row there is. -/
theorem visit_replay (hrows : RowsOk rows) (hp : p.Ok rows)
    (hr : rows.get? id = some r) (h : Visits rows id r p p') (hreplays : p.replays = some (a, f))
    (hdone : p'.isDone = true) {id' : String} {r' : Row} (hr' : rows.get? id' = some r') (hf : r'.family = f)
    (hl' : r'.live = true) : a.requestDeviceID ≠ "" ∧ r'.device = a.requestDeviceID := by
  cases h with
  | presented | unmatched | matched => cases hreplays
  | passedOver | holder | sweep => cases hdone
  | ownDevice hid hl hne hdevice =>
    cases hreplays
    obtain ⟨r₀, hr₀, hfam⟩ := hp.2 id hid
    rw [hr] at hr₀
    cases hr₀
    obtain rfl := hrows.live id id' r r' hr hr' hl hl' (hfam.trans hf.symm)
    rw [hr] at hr'
    cases hr'
    exact ⟨hne, hdevice.symm⟩

/-- A replay that ends with a commit leaves no live row. -/
theorem finish_replay (hp : p.Ok rows) (hwatch : p.Watches rows) (h : Finishes rows p rows' p')
    (hreplays : p.replays = some (a, f)) (hr : rows'.get? id = some r) (hf : r.family = f) : r.live = false := by
  cases h with
  | notFound | rotate | settled | pass => cases hreplays
  | noHolder =>
    cases hreplays
    by_contra hl
    rcases hwatch id ⟨r, hr, by simpa using hl, hf⟩ with hmem | ⟨k, hk, _⟩
    · exact absurd hmem not_mem_nil
    · exact absurd hk not_mem_nil
  | sweep =>
    cases hreplays
    have hrevoked := sweep_allRevoked hp id r hr hf
    simp [Row.live, hrevoked]

/-- A replay that ends then has revoked the family. -/
theorem Watching.replayRevokes (hs : Watching s) : ReplayRevokes s e := by
  intro s' hstep i p p' a f hp hreplays hp' hdone id r hr hf hl
  have hnot := not_isDone_of_replays hreplays
  -- a call that the event is not about is as it was
  have hsame : s'.procs[i]? = some p → False := by
    intro h
    rw [h] at hp'
    cases hp'
    rw [hnot] at hdone
    cases hdone
  have hown : ∀ (j : Nat) (q' : Proc), (s.procs.set j q')[i]? = some p' → s'.procs = s.procs.set j q' →
      j = i ∧ q' = p' := by
    intro j q' hq' heq
    rcases getElem?_set hq' with ⟨rfl, rfl⟩ | ⟨hne, _⟩
    · exact ⟨rfl, rfl⟩
    · exact (hsame (by rw [heq, getElem?_set_ne (Ne.symm hne)]; exact hp)).elim
  have hlt : i < s.procs.length := (List.getElem?_eq_some_iff.mp hp).1
  cases step_cases hstep with
  | issue => exact (hsame hp).elim
  | rotate | revokeFamily => exact (hsame (by rw [getElem?_append_left hlt]; exact hp)).elim
  | begin hq h | abort hq h =>
    obtain ⟨rfl, rfl⟩ := hown _ _ hp' rfl
    cases h <;> cases hdone
  | visit hq hrow hfree h =>
    obtain ⟨rfl, rfl⟩ := hown _ _ hp' rfl
    rw [hp] at hq
    cases hq
    exact visit_replay hs.inv.rows (hs.inv.ok _ _ hp) hrow h hreplays hdone hr hf hl
  | finish hq h =>
    obtain ⟨rfl, rfl⟩ := hown _ _ hp' rfl
    rw [hp] at hq
    cases hq
    have hdead := finish_replay (hs.inv.ok _ _ hp) (hs.watches _ _ hp) h hreplays hr hf
    rw [hl] at hdead
    cases hdead

/-- **A replay leaves no live row but of its own device, in every run in which no lookup of the live row comes upon
a row rotated since it started.** -/
theorem replay_revokes_family {es : List Event} (h : Along step HolderNotRotated .empty es) :
    Along step ReplayRevokes .empty es :=
  along_invariant (fun _ _ _ hs hrot hstep => hs.step hrot hstep) (fun _ _ hs _ => hs.replayRevokes) watching_empty h

/-- The first token of the family comes again, from another device. -/
def replayed : List Event :=
  [.issue "s1" "d1" "h1" login 0 5, .rotate (exchange "h1" "s2" "h2" "d1"), .begin 0, .visit 0 "s1", .finish 0,
    .rotate (exchange "h1" "s9" "h9" "d2"), .begin 1, .visit 1 "s1", .begin 1, .visit 1 "s2", .begin 1,
    .visit 1 "s1", .visit 1 "s2", .finish 1]

theorem replay_revokes_family_replayed :
    (run step .empty replayed).isSome = true ∧ Along step ReplayRevokes .empty replayed := by
  refine ⟨by decide, replay_revokes_family ?_⟩
  decide

/-- The replay waits for the row that the holder is rotating. -/
def waitingReplay : List Event :=
  [.issue "s1" "d1" "h1" login 0 5, .rotate (exchange "h1" "s2" "h2" "d1"), .begin 0, .visit 0 "s1", .finish 0,
    .rotate (exchange "h2" "s3" "h3" "d1"), .begin 1, .visit 1 "s2",
    .rotate (exchange "h1" "s9" "h9" "d2"), .begin 2, .visit 2 "s1", .begin 2, .finish 1, .visit 2 "s2"]

theorem waiting_replay_misses_successor : ¬ ∀ es : List Event, Along step ReplayRevokes .empty es := by
  intro h
  have hend : ((run step .empty waitingReplay).bind fun s => (step s (.finish 2)).map fun s' =>
      (s.procs[2]?).any (fun p => p.replays.any fun x => x.1.requestDeviceID = "d2" && x.2 = "s1") &&
        (s'.procs[2]?).any (·.isDone) &&
        (s'.rows.get? "s3").any fun r => r.family = "s1" && r.live && r.device = "d1") = some true := by
    decide
  obtain ⟨s, hrun, hs⟩ := Option.bind_eq_some_iff.mp hend
  obtain ⟨s', hstep, hs'⟩ := Option.map_eq_some_iff.mp hs
  obtain ⟨hprocs, hrow⟩ := Bool.and_eq_true_iff.mp hs'
  obtain ⟨hbefore, hafter⟩ := Bool.and_eq_true_iff.mp hprocs
  obtain ⟨p, hp, hreplays⟩ := (Option.any_eq_true _ _).mp hbefore
  obtain ⟨⟨a, f⟩, hreplays, hargs⟩ := (Option.any_eq_true _ _).mp hreplays
  obtain ⟨hdevice, hf⟩ := Bool.and_eq_true_iff.mp hargs
  obtain ⟨p', hp', hdone⟩ := (Option.any_eq_true _ _).mp hafter
  obtain ⟨r, hr, hcond⟩ := (Option.any_eq_true _ _).mp hrow
  obtain ⟨hcond, hholder⟩ := Bool.and_eq_true_iff.mp hcond
  obtain ⟨hfam, hl⟩ := Bool.and_eq_true_iff.mp hcond
  have hlast : ReplayRevokes s (.finish 2) := ((h (waitingReplay ++ [.finish 2])).of_append hrun).1
  have hown := (hlast s' hstep 2 p p' a f hp hreplays hp' hdone "s3" r hr
    ((of_decide_eq_true hfam).trans (of_decide_eq_true hf).symm) hl).2
  rw [of_decide_eq_true hholder, of_decide_eq_true hdevice] at hown
  revert hown
  decide

end GoErp.Session
