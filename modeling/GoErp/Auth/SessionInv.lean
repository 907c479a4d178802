import GoErp.Auth.Session

/-!
# `Auth.SessionInv` — what every interleaving keeps

Commits write only rows that the transaction holds locked, and insert a row only next to a live row that it holds
locked and rotates (`Writes`). What a call knows of locked rows (`Proc.Ok`) therefore survives the commits of the
others (`Proc.Ok.frame`), and with it the invariant of all runs (`Inv`): one live row a family, one successor a
token, and a family that is being revoked by a replay gains no row.
-/

namespace GoErp.Session

open Lib List

variable {rows rows' : Rows}

/-! ## Commits -/

/-- A later version of a row. -/
structure Row.Later (r r' : Row) : Prop where
  family : r'.family = r.family
  device : r'.device = r.device
  hash : r'.hash = r.hash
  rotated : r.rotated = true → r'.rotated = true
  revoked : r.revoked = true → r'.revoked = true

theorem Row.Later.refl (r : Row) : r.Later r := ⟨rfl, rfl, rfl, id, id⟩

variable {r' : Row} {r : Row}

/-- A row that is live was live before: rows are not revived. -/
theorem Row.Later.live (h : r.Later r') (hl : r'.live = true) : r.live = true := by
  unfold Row.live at hl ⊢
  have hrotated := h.rotated
  have hrevoked := h.revoked
  cases hr : r.rotated <;> cases hv : r.revoked <;> simp_all

theorem Row.live_iff : r.live = true ↔ r.rotated = false ∧ r.revoked = false := by
  simp [Row.live]

/-- The rows after a commit of a transaction that held `locked`; `born` are the families that begin with it. -/
structure Writes (rows rows' : Rows) (locked born : List String) : Prop where
  keep : ∀ id r, rows.get? id = some r → ∃ r', rows'.get? id = some r' ∧ r.Later r' ∧ (id ∉ locked → r' = r)
  new : ∀ id r', rows'.get? id = some r' → rows.get? id = none → r'.family ∈ born ∨
    ∃ h r r'', h ∈ locked ∧ rows.get? h = some r ∧ r.live = true ∧ r.family = r'.family ∧
      rows'.get? h = some r'' ∧ r''.rotated = true
  fresh : ∀ f ∈ born, ∀ id r, rows.get? id = some r → r.family ≠ f

/-- A call that writes nothing. -/
theorem Writes.refl (rows : Rows) (locked : List String) : Writes rows rows locked [] where
  keep id r h := ⟨r, h, Row.Later.refl r, fun _ => rfl⟩
  new id r' h hn := by simp [h] at hn
  fresh f hf := absurd hf not_mem_nil

variable {id : String}

/-- A live row after a commit: it was there, or it is a successor, or the first of its family. -/
theorem Writes.live {locked born : List String} (h : Writes rows rows' locked born) (hr' : rows'.get? id = some r')
    (hl : r'.live = true) : (∃ r, rows.get? id = some r ∧ r.live = true ∧ r.family = r'.family) ∨ r'.family ∈ born ∨
      ∃ h r r'', h ∈ locked ∧ rows.get? h = some r ∧ r.live = true ∧ r.family = r'.family ∧
        rows'.get? h = some r'' ∧ r''.rotated = true := by
  cases hr : rows.get? id with
  | none => exact Or.inr (h.new id r' hr' hr)
  | some r =>
    obtain ⟨r₁, hr₁, hlater, _⟩ := h.keep id r hr
    rw [hr'] at hr₁
    cases hr₁
    exact Or.inl ⟨r, rfl, hlater.live hl, hlater.family.symm⟩

/-- Tokens name one row, and families have one live row. -/
structure RowsOk (rows : Rows) : Prop where
  hash : ∀ id id' r r', rows.get? id = some r → rows.get? id' = some r' → r.hash = r'.hash → id = id'
  live : ∀ id id' r r', rows.get? id = some r → rows.get? id' = some r' → r.live = true → r'.live = true →
    r.family = r'.family → id = id'

theorem mem_idsWhere {p : Row → Bool} : id ∈ idsWhere rows p ↔ ∃ r, rows.get? id = some r ∧ p r = true := by
  rw [idsWhere, mem_map]
  constructor
  · rintro ⟨x, hx, rfl⟩
    obtain ⟨hx, hp⟩ := mem_filter.mp hx
    exact ⟨x.2, Table.mem_rows.mp hx, hp⟩
  · rintro ⟨r, hr, hp⟩
    exact ⟨(id, r), mem_filter.mpr ⟨Table.mem_rows.mpr hr, hp⟩, rfl⟩

/-- No committed row has the token. -/
theorem hashFree_iff {hash : String} : hashFree rows hash = true ↔ ∀ id r, rows.get? id = some r → r.hash ≠ hash := by
  unfold hashFree
  rw [Bool.not_eq_true', Bool.eq_false_iff, ne_eq, Table.any_eq_true]
  constructor
  · intro h id r hr heq
    exact h ⟨id, r, hr, decide_eq_true heq⟩
  · rintro h ⟨id, r, hr, heq⟩
    exact h id r hr (of_decide_eq_true heq)

theorem get?_markRevoked (ids : List String) (id : String) : (markRevoked rows ids).get? id =
      (rows.get? id).map fun r => if id ∈ ids then { r with revoked := true } else r :=
  Table.get?_update rows _ id

theorem get?_markRotated (id id' : String) : (markRotated rows id).get? id' =
      (rows.get? id').map fun r => if id' = id then { r with rotated := true } else r :=
  Table.get?_update rows _ id'

/-- Every row of the set of revoked ids is a later version of itself. -/
theorem later_of_markRevoked {ids : List String} (h : (markRevoked rows ids).get? id = some r') :
    ∃ r, rows.get? id = some r ∧ r.Later r' := by
  rw [get?_markRevoked] at h
  obtain ⟨r, hr, rfl⟩ := Option.map_eq_some_iff.mp h
  refine ⟨r, hr, ?_⟩
  by_cases hid : id ∈ ids
  · rw [if_pos hid]
    exact ⟨rfl, rfl, rfl, fun h => h, fun _ => rfl⟩
  · rw [if_neg hid]
    exact Row.Later.refl r

/-- Revoking changes the revoked rows only. -/
theorem markRevoked_writes (ids : List String) : Writes rows (markRevoked rows ids) ids [] where
  keep id r h := by
    refine ⟨if id ∈ ids then { r with revoked := true } else r, by rw [get?_markRevoked, h]; rfl, ?_, ?_⟩
    · by_cases hid : id ∈ ids
      · rw [if_pos hid]
        exact ⟨rfl, rfl, rfl, fun h => h, fun _ => rfl⟩
      · rw [if_neg hid]
        exact Row.Later.refl r
    · intro hid
      rw [if_neg hid]
  new id r' h hn := by simp [get?_markRevoked, hn] at h
  fresh f hf := absurd hf not_mem_nil

theorem Writes.mono {locked locked' born : List String} (h : Writes rows rows' locked born)
    (hsub : ∀ id ∈ locked, id ∈ locked') : Writes rows rows' locked' born where
  keep id r hr := by
    obtain ⟨r', hr', hlater, heq⟩ := h.keep id r hr
    exact ⟨r', hr', hlater, fun hn => heq fun hid => hn (hsub id hid)⟩
  new id r' hr' hn := by
    rcases h.new id r' hr' hn with hb | ⟨k, r, r'', hk, hrest⟩
    · exact Or.inl hb
    · exact Or.inr ⟨k, r, r'', hsub k hk, hrest⟩
  fresh := h.fresh

/-- Revoking rows revives none. -/
theorem RowsOk.markRevoked (hok : RowsOk rows) (ids : List String) : RowsOk (markRevoked rows ids) where
  hash id id' r r' hr hr' heq := by
    obtain ⟨r₀, hr₀, h₀⟩ := later_of_markRevoked hr
    obtain ⟨r₁, hr₁, h₁⟩ := later_of_markRevoked hr'
    exact hok.hash id id' r₀ r₁ hr₀ hr₁ (by rw [← h₀.hash, ← h₁.hash, heq])
  live id id' r r' hr hr' hl hl' hf := by
    obtain ⟨r₀, hr₀, h₀⟩ := later_of_markRevoked hr
    obtain ⟨r₁, hr₁, h₁⟩ := later_of_markRevoked hr'
    exact hok.live id id' r₀ r₁ hr₀ hr₁ (h₀.live hl) (h₁.live hl') (by rw [← h₀.family, ← h₁.family, hf])

/-! ## Rotation -/

section

variable {a : RotateArgs} {id : String} {r : Row} {expiry : Nat}

/-- The rows after a rotation. -/
def rotatedRows (rows : Rows) (a : RotateArgs) (id : String) (r : Row) (expiry : Nat) : Rows :=
  (markRotated rows id).insert a.newSessionID (successor a r expiry)

/-- A row after a rotation: the successor, the rotated row, or a row as it was. -/
theorem get?_rotatedRows {id' : String} {r' : Row} (hr : rows.get? id = some r)
    (h : (rotatedRows rows a id r expiry).get? id' = some r') :
    (id' = a.newSessionID ∧ r' = successor a r expiry) ∨ (id' = id ∧ r' = { r with rotated := true }) ∨
      (id' ≠ id ∧ rows.get? id' = some r') := by
  rw [rotatedRows, Table.get?_insert] at h
  split at h
  · exact Or.inl ⟨‹_›, (Option.some.inj h).symm⟩
  rw [get?_markRotated] at h
  obtain ⟨r₀, hr₀, rfl⟩ := Option.map_eq_some_iff.mp h
  by_cases hid : id' = id
  · subst hid
    rw [hr] at hr₀
    cases hr₀
    exact Or.inr (Or.inl ⟨rfl, if_pos rfl⟩)
  · rw [if_neg hid]
    exact Or.inr (Or.inr ⟨hid, hr₀⟩)

variable (hr : rows.get? id = some r)
include hr

/-- A rotation replaces the family's live row by another. -/
theorem RowsOk.rotatedRows (hok : RowsOk rows) (hl : r.live = true) (hhash : hashFree rows a.newHash = true) :
    RowsOk (rotatedRows rows a id r expiry) := by
  have hfree := hashFree_iff.mp hhash
  constructor
  case hash =>
    intro i j r₁ r₂ h₁ h₂ heq
    rcases get?_rotatedRows hr h₁ with ⟨hi, rfl⟩ | ⟨hi, rfl⟩ | ⟨_, h₁⟩ <;>
      rcases get?_rotatedRows hr h₂ with ⟨hj, rfl⟩ | ⟨hj, rfl⟩ | ⟨_, h₂⟩
    · rw [hi, hj]
    · exact absurd heq.symm (hfree id r hr)
    · exact absurd heq.symm (hfree j _ h₂)
    · exact absurd heq (hfree id r hr)
    · rw [hi, hj]
    · exact hi ▸ hok.hash id j r _ hr h₂ heq
    · exact absurd heq (hfree i _ h₁)
    · exact hj ▸ hok.hash i id _ r h₁ hr heq
    · exact hok.hash i j _ _ h₁ h₂ heq
  case live =>
    intro i j r₁ r₂ h₁ h₂ hl₁ hl₂ hf
    -- the rotated row is not live, and next to the successor no other row of the family is
    rcases get?_rotatedRows hr h₁ with ⟨hi, rfl⟩ | ⟨_, rfl⟩ | ⟨hi, h₁⟩
    · rcases get?_rotatedRows hr h₂ with ⟨hj, rfl⟩ | ⟨_, rfl⟩ | ⟨hj, h₂⟩
      · rw [hi, hj]
      · simp [Row.live] at hl₂
      · exact absurd (hok.live j id _ r h₂ hr hl₂ hl hf.symm) hj
    · simp [Row.live] at hl₁
    rcases get?_rotatedRows hr h₂ with ⟨_, rfl⟩ | ⟨_, rfl⟩ | ⟨hj, h₂⟩
    · exact absurd (hok.live i id _ r h₁ hr hl₁ hl hf) hi
    · simp [Row.live] at hl₂
    · exact hok.live i j _ _ h₁ h₂ hl₁ hl₂ hf

variable (hnew : rows.get? a.newSessionID = none)
include hnew

theorem get?_rotatedRows_self : (rotatedRows rows a id r expiry).get? id = some { r with rotated := true } := by
  have hne : id ≠ a.newSessionID := by
    intro heq
    simp [← heq, hr] at hnew
  rw [rotatedRows, Table.get?_insert, if_neg hne, get?_markRotated, hr]
  simp

/-- A rotation writes the row it has locked, and a new one of its family. -/
theorem rotatedRows_writes (hl : r.live = true) : Writes rows (rotatedRows rows a id r expiry) [id] [] where
  keep id' r₀ hr₀ := by
    by_cases hid : id' = id
    · subst hid
      rw [hr] at hr₀
      cases hr₀
      refine ⟨_, get?_rotatedRows_self hr hnew, ⟨rfl, rfl, rfl, fun _ => rfl, fun h => h⟩, ?_⟩
      intro hn
      exact absurd (mem_singleton_self _) hn
    · have hne : id' ≠ a.newSessionID := by
        intro heq
        simp [← heq, hr₀] at hnew
      refine ⟨r₀, ?_, Row.Later.refl r₀, fun _ => rfl⟩
      rw [rotatedRows, Table.get?_insert, if_neg hne, get?_markRotated, hr₀]
      simp [hid]
  new id' r' hr' hn := by
    refine Or.inr ⟨id, r, _, mem_singleton_self id, hr, hl, ?_, get?_rotatedRows_self hr hnew, rfl⟩
    rcases get?_rotatedRows hr hr' with ⟨_, rfl⟩ | ⟨rfl, _⟩ | ⟨_, hold⟩
    · rfl
    · simp [hr] at hn
    · simp [hold] at hn
  fresh f hf := absurd hf not_mem_nil

end

/-! ## What a call knows -/

/-- A committed row of the family. -/
def InFamily (rows : Rows) (f id : String) : Prop := ∃ r, rows.get? id = some r ∧ r.family = f

/-- A live row of the family. -/
def LiveIn (rows : Rows) (f id : String) : Prop := ∃ r, rows.get? id = some r ∧ r.live = true ∧ r.family = f

/-- What a call in progress has established of the rows, at each of its statements. -/
def Proc.Ok (rows : Rows) : Proc → Prop
  | .rotate a (.find todo) => ∀ id ∈ todo, ∃ r, rows.get? id = some r ∧ r.hash = a.presentedHash
  | .rotate a (.rotate id r _) => rows.get? id = some r ∧ r.live = true ∧ r.hash = a.presentedHash
  | .rotate _ (.replay p f) => InFamily rows f p
  | .rotate _ (.current p f todo) => InFamily rows f p ∧ ∀ id ∈ todo, InFamily rows f id
  | .rotate _ (.compromise _ h f) => LiveIn rows f h
  | .rotate _ (.sweep _ h f todo revoked) =>
    LiveIn rows f h ∧ ∀ id, InFamily rows f id ↔ id ∈ todo ∨ id ∈ revoked
  | .rotate a (.done .ok) => ∃ id r, rows.get? id = some r ∧ r.hash = a.presentedHash ∧ r.rotated = true
  | .revoke f (.pass _ todo matched) => ∀ id, id ∈ todo ∨ id ∈ matched → InFamily rows f id
  | _ => True

section

variable {locked born : List String} (hw : Writes rows rows' locked born)
include hw

variable {f : String} {id : String}

theorem InFamily.frame (h : InFamily rows f id) : InFamily rows' f id := by
  obtain ⟨r, hr, hf⟩ := h
  obtain ⟨r', hr', hlater, _⟩ := hw.keep id r hr
  exact ⟨r', hr', hlater.family.trans hf⟩

/-- A live row stays live if the call that writes does not hold its lock. -/
theorem LiveIn.frame (h : LiveIn rows f id) (hid : id ∉ locked) : LiveIn rows' f id := by
  obtain ⟨r, hr, hl, hf⟩ := h
  obtain ⟨r', hr', _, heq⟩ := hw.keep id r hr
  exact ⟨r', hr', heq hid ▸ hl, heq hid ▸ hf⟩

/-- A family whose live row another transaction holds gains no row. -/
theorem InFamily.back (hok : RowsOk rows) {h : String} (hlive : LiveIn rows f h) (hh : h ∉ locked)
    (hin : InFamily rows' f id) : InFamily rows f id := by
  obtain ⟨r', hr', rfl⟩ := hin
  obtain ⟨rh, hrh, hlh, hfh⟩ := hlive
  cases hr : rows.get? id with
  | some r =>
    obtain ⟨r₁, hr₁, hlater, _⟩ := hw.keep id r hr
    rw [hr'] at hr₁
    cases hr₁
    exact ⟨r, hr, hlater.family.symm⟩
  | none =>
    rcases hw.new id r' hr' hr with hb | ⟨k, rk, _, hk, hrk, hlk, hfk, _⟩
    · exact absurd hfh (hw.fresh _ hb h rh hrh)
    -- the row that gained a successor is the live row, which the writer did not hold
    have hkh : k = h := hok.live k h rk rh hrk hrh hlk hlh (hfk.trans hfh.symm)
    exact absurd (hkh ▸ hk) hh

/-- **What a call knows survives the commits of the others.** -/
theorem Proc.Ok.frame (hok : RowsOk rows) {p : Proc} (hp : p.Ok rows) (hlocks : ∀ id ∈ locked, id ∉ p.locks) :
    p.Ok rows' := by
  have hnot : ∀ id ∈ p.locks, id ∉ locked := fun id hid hlocked => hlocks id hlocked hid
  match p with
  | .rotate a (.find todo) =>
    intro id hid
    obtain ⟨r, hr, hhash⟩ := hp id hid
    obtain ⟨r', hr', hlater, _⟩ := hw.keep id r hr
    exact ⟨r', hr', hlater.hash.trans hhash⟩
  | .rotate a (.rotate id r e) =>
    obtain ⟨hr, hrest⟩ := hp
    obtain ⟨r', hr', _, heq⟩ := hw.keep id r hr
    exact ⟨heq (hnot id (mem_singleton_self id)) ▸ hr', hrest⟩
  | .rotate a (.replay p f) => exact InFamily.frame hw hp
  | .rotate a (.current p f todo) => exact ⟨InFamily.frame hw hp.1, fun id hid => InFamily.frame hw (hp.2 id hid)⟩
  | .rotate a (.compromise p h f) => exact LiveIn.frame hw hp (hnot h (by simp [Proc.locks]))
  | .rotate a (.sweep p h f todo revoked) =>
    have hh : h ∉ locked := hnot h (by simp [Proc.locks])
    refine ⟨LiveIn.frame hw hp.1 hh, fun id => ⟨fun hin => ?_, fun hid => ?_⟩⟩
    · exact (hp.2 id).mp (InFamily.back hw hok hp.1 hh hin)
    · exact InFamily.frame hw ((hp.2 id).mpr hid)
  | .rotate a (.done .ok) =>
    obtain ⟨id, r, hr, hhash, hrot⟩ := hp
    obtain ⟨r', hr', hlater, _⟩ := hw.keep id r hr
    exact ⟨id, r', hr', hlater.hash.trans hhash, hlater.rotated hrot⟩
  | .revoke f (.pass all todo matched) => exact fun id hid => InFamily.frame hw (hp id hid)
  | .rotate a .start | .rotate a .failed | .rotate a (.done .notFound) | .rotate a (.done .familyRevoked)
  | .rotate a (.done .replaySameDevice) | .rotate a (.done .replayDifferentDevice) | .rotate a (.done .expired)
  | .revoke f (.start all) | .revoke f (.done all) | .revoke f .failed => exact trivial

end

/-! ## The steps of a call

What each statement of the source can do, said once; every fact about a step below is one case a constructor. -/

/-- The statements that calls begin, as a relation. -/
inductive Begins (rows : Rows) : Proc → Proc → Prop where
  | find {a : RotateArgs} :
      Begins rows (.rotate a .start) (.rotate a (.find (idsWhere rows fun r => r.hash = a.presentedHash)))
  | current {a : RotateArgs} {q f : String} :
      Begins rows (.rotate a (.replay q f))
        (.rotate a (.current q f (idsWhere rows fun r => r.family = f && r.live)))
  | sweep {a : RotateArgs} {q k f : String} :
      Begins rows (.rotate a (.compromise q k f))
        (.rotate a (.sweep q k f (idsWhere rows fun r => r.family = f) []))
  | pass {f : String} {all : List String} :
      Begins rows (.revoke f (.start all))
        (.revoke f (.pass all (idsWhere rows fun r => r.family = f && !r.revoked) []))

variable {p p' : Proc}

theorem begin_cases (h : p.begin rows = some p') : Begins rows p p' := by
  unfold Proc.begin at h
  split at h <;> cases h <;> constructor

/-- What a call does with the next row of its list, once it has the lock. -/
inductive Visits (rows : Rows) (id : String) (r : Row) : Proc → Proc → Prop where
  | presented {a : RotateArgs} {todo : List String} (hid : id ∈ todo) :
      Visits rows id r (.rotate a (.find todo)) (.rotate a (presented a rows id r))
  | passedOver {a : RotateArgs} {q f : String} {todo : List String} (hid : id ∈ todo) (hl : r.live = false) :
      Visits rows id r (.rotate a (.current q f todo)) (.rotate a (.current q f (todo.filter (· ≠ id))))
  | ownDevice {a : RotateArgs} {q f : String} {todo : List String} (hid : id ∈ todo) (hl : r.live = true)
      (hne : a.requestDeviceID ≠ "") (hdevice : a.requestDeviceID = r.device) :
      Visits rows id r (.rotate a (.current q f todo)) (.rotate a (.done .replaySameDevice))
  | holder {a : RotateArgs} {q f : String} {todo : List String} (hid : id ∈ todo) (hl : r.live = true) :
      Visits rows id r (.rotate a (.current q f todo)) (.rotate a (.compromise q id f))
  | sweep {a : RotateArgs} {q k f : String} {todo revoked : List String} (hid : id ∈ todo) :
      Visits rows id r (.rotate a (.sweep q k f todo revoked))
        (.rotate a (.sweep q k f (todo.filter (· ≠ id)) (id :: revoked)))
  | unmatched {f : String} {all todo matched : List String} (hid : id ∈ todo) (hrev : r.revoked = true) :
      Visits rows id r (.revoke f (.pass all todo matched)) (.revoke f (.pass all (todo.filter (· ≠ id)) matched))
  | matched {f : String} {all todo matched : List String} (hid : id ∈ todo) (hrev : r.revoked = false) :
      Visits rows id r (.revoke f (.pass all todo matched))
        (.revoke f (.pass all (todo.filter (· ≠ id)) (matched ++ [id])))

theorem visit_cases (h : p.visit rows id r = some p') : Visits rows id r p p' := by
  unfold Proc.visit at h
  split at h
  · split at h
    · cases h
      exact .presented ‹_›
    · cases h
  · split at h
    · cases h
    rename_i hid
    have hid := Decidable.not_not.mp hid
    split at h
    · rename_i hl
      cases h
      exact .passedOver hid (by simpa using hl)
    rename_i hl
    have hl : r.live = true := by simpa using hl
    split at h
    · rename_i hdevice
      cases h
      exact .ownDevice hid hl hdevice.1 hdevice.2
    · cases h
      exact .holder hid hl
  · split at h
    · cases h
    rename_i hid
    cases h
    exact .sweep (Decidable.not_not.mp hid)
  · split at h
    · cases h
    rename_i hid
    have hid := Decidable.not_not.mp hid
    split at h
    · cases h
      exact .unmatched hid ‹_›
    rename_i hrev
    cases h
    exact .matched hid (by simpa using hrev)
  · cases h

/-- The statements that calls end with, and what they commit. -/
inductive Finishes (rows : Rows) : Proc → Rows → Proc → Prop where
  | notFound {a : RotateArgs} : Finishes rows (.rotate a (.find [])) rows (.rotate a (.done .notFound))
  | rotate {a : RotateArgs} {id : String} {r : Row} {e : Nat} (hnew : rows.get? a.newSessionID = none)
      (hhash : hashFree rows a.newHash = true) :
      Finishes rows (.rotate a (.rotate id r e)) (rotatedRows rows a id r e) (.rotate a (.done .ok))
  | noHolder {a : RotateArgs} {q f : String} :
      Finishes rows (.rotate a (.current q f [])) rows (.rotate a (.done .familyRevoked))
  | sweep {a : RotateArgs} {q k f : String} {revoked : List String} :
      Finishes rows (.rotate a (.sweep q k f [] revoked)) (markRevoked rows revoked)
        (.rotate a (.done .replayDifferentDevice))
  | settled {f : String} {all : List String} :
      Finishes rows (.revoke f (.pass all [] [])) rows (.revoke f (.done all))
  | pass {f : String} {all matched : List String} (hm : matched ≠ []) :
      Finishes rows (.revoke f (.pass all [] matched)) (markRevoked rows matched)
        (.revoke f (.start (all ++ matched)))

theorem finish_cases (h : p.finish rows = some (rows', p')) : Finishes rows p rows' p' := by
  unfold Proc.finish at h
  split at h
  · cases h
    exact .notFound
  · split at h
    · rename_i hfree
      cases h
      obtain ⟨hnew, hhash⟩ := Bool.and_eq_true_iff.mp hfree
      exact .rotate (Option.isNone_iff_eq_none.mp hnew) hhash
    · cases h
  · cases h
    exact .noHolder
  · cases h
    exact .sweep
  · split at h
    · rename_i hm
      cases h
      subst hm
      exact .settled
    · cases h
      exact .pass ‹_›
  · cases h

/-- A call that has returned an error. -/
inductive Aborted : Proc → Prop where
  | rotate {a : RotateArgs} : Aborted (.rotate a .failed)
  | revoke {f : String} : Aborted (.revoke f .failed)

theorem abort_cases (h : p.abort = some p') : Aborted p' := by
  unfold Proc.abort at h
  split at h <;> cases h <;> constructor

/-! ## What the steps keep -/

section

variable {p p' : Proc}

/-- A statement begins with what the rows say, and takes no lock. -/
theorem begin_ok (hp : p.Ok rows) (h : Begins rows p p') : p'.Ok rows ∧ p'.locks = p.locks := by
  cases h with
  | find =>
    refine ⟨fun id hid => ?_, rfl⟩
    obtain ⟨r, hr, hhash⟩ := mem_idsWhere.mp hid
    exact ⟨r, hr, of_decide_eq_true hhash⟩
  | current =>
    refine ⟨⟨hp, fun id hid => ?_⟩, rfl⟩
    obtain ⟨r, hr, hcond⟩ := mem_idsWhere.mp hid
    exact ⟨r, hr, of_decide_eq_true (Bool.and_eq_true_iff.mp hcond).1⟩
  | sweep =>
    refine ⟨⟨hp, fun id => ?_⟩, rfl⟩
    simp only [mem_idsWhere, InFamily, decide_eq_true_eq, not_mem_nil, or_false]
  | pass =>
    refine ⟨fun id hid => ?_, rfl⟩
    obtain ⟨r, hr, hcond⟩ := mem_idsWhere.mp (hid.resolve_right not_mem_nil)
    exact ⟨r, hr, of_decide_eq_true (Bool.and_eq_true_iff.mp hcond).1⟩

variable {r : Row} {id : String}

/-- What the first statement of `Rotate` leads to. -/
theorem presented_ok {a : RotateArgs} (hr : rows.get? id = some r) (hhash : r.hash = a.presentedHash) :
    (Proc.rotate a (presented a rows id r)).Ok rows ∧
      ∀ x ∈ (Proc.rotate a (presented a rows id r)).locks, x = id := by
  unfold presented
  by_cases hrevoked : r.revoked = true
  · rw [if_pos hrevoked]
    exact ⟨trivial, fun x hx => absurd hx not_mem_nil⟩
  rw [if_neg hrevoked]
  by_cases hrotated : r.rotated = true
  · rw [if_pos hrotated]
    exact ⟨⟨r, hr, rfl⟩, fun x hx => mem_singleton.mp hx⟩
  rw [if_neg hrotated]
  split
  · exact ⟨trivial, fun x hx => absurd hx not_mem_nil⟩
  split
  · exact ⟨trivial, fun x hx => absurd hx not_mem_nil⟩
  split
  · exact ⟨trivial, fun x hx => absurd hx not_mem_nil⟩
  · exact ⟨⟨hr, by simp [Row.live, hrevoked, hrotated], hhash⟩, fun x hx => mem_singleton.mp hx⟩

/-- A row that is visited is locked, and what is read of it is true. -/
theorem visit_ok (hp : p.Ok rows) (hr : rows.get? id = some r) (h : Visits rows id r p p') :
    p'.Ok rows ∧ ∀ x ∈ p'.locks, x ∈ p.locks ∨ x = id := by
  cases h with
  | presented hid =>
    obtain ⟨r₀, hr₀, hhash⟩ := hp id hid
    rw [hr] at hr₀
    cases hr₀
    obtain ⟨hok, hlocks⟩ := presented_ok hr hhash
    exact ⟨hok, fun x hx => Or.inr (hlocks x hx)⟩
  | passedOver _ _ => exact ⟨⟨hp.1, fun x hx => hp.2 x (mem_of_mem_filter hx)⟩, fun x hx => Or.inl hx⟩
  | ownDevice _ _ _ _ => exact ⟨trivial, fun x hx => absurd hx not_mem_nil⟩
  | holder hid hl =>
    obtain ⟨r₀, hr₀, hfam⟩ := hp.2 id hid
    rw [hr] at hr₀
    cases hr₀
    refine ⟨⟨r, hr, hl, hfam⟩, fun x hx => ?_⟩
    rcases mem_cons.mp hx with rfl | hx
    · exact Or.inl (mem_singleton_self x)
    · exact Or.inr (mem_singleton.mp hx)
  | sweep hid =>
    refine ⟨⟨hp.1, fun x => ?_⟩, fun x hx => ?_⟩
    · rw [hp.2 x, mem_filter, mem_cons]
      by_cases hx : x = id
      · subst hx
        simp [hid]
      · simp [hx]
    · simp only [Proc.locks, mem_cons] at hx ⊢
      tauto
  | unmatched _ _ => exact ⟨fun x hx => hp x (hx.imp_left mem_of_mem_filter), fun x hx => Or.inl hx⟩
  | matched hid _ =>
    refine ⟨fun x hx => ?_, fun x hx => (mem_append.mp hx).imp_right mem_singleton.mp⟩
    rcases hx with hx | hx
    · exact hp x (Or.inl (mem_of_mem_filter hx))
    rcases mem_append.mp hx with hx | hx
    · exact hp x (Or.inr hx)
    · exact hp x (Or.inl (mem_singleton.mp hx ▸ hid))

/-- What is committed is within the locks, and leaves the rows in order. -/
theorem finish_ok (hrows : RowsOk rows) (hp : p.Ok rows) (h : Finishes rows p rows' p') :
    Writes rows rows' p.locks [] ∧ RowsOk rows' ∧ p'.Ok rows' ∧ p'.locks = [] := by
  cases h with
  | notFound | noHolder | settled => exact ⟨Writes.refl rows _, hrows, trivial, rfl⟩
  | rotate hnew hhash =>
    obtain ⟨hr, hl, hpres⟩ := hp
    refine ⟨rotatedRows_writes hr hnew hl, hrows.rotatedRows hr hl hhash, ?_, rfl⟩
    exact ⟨_, _, get?_rotatedRows_self hr hnew, hpres, rfl⟩
  | sweep =>
    refine ⟨(markRevoked_writes _).mono fun x hx => ?_, hrows.markRevoked _, trivial, rfl⟩
    exact mem_cons_of_mem _ (mem_cons_of_mem _ hx)
  | pass _ => exact ⟨markRevoked_writes _, hrows.markRevoked _, trivial, rfl⟩

theorem aborted_ok (h : Aborted p') : p'.Ok rows ∧ p'.locks = [] := by
  cases h <;> exact ⟨trivial, rfl⟩

/-! ### A call succeeds with its commit only -/

/-- A rotation that has succeeded. -/
def Proc.succeeded : Proc → Bool
  | .rotate _ (.done .ok) => true
  | _ => false

theorem begin_succeeded (h : Begins rows p p') : p'.succeeded = false := by
  cases h <;> rfl

theorem presented_succeeded (a : RotateArgs) (id : String) (r : Row) :
    (Proc.rotate a (presented a rows id r)).succeeded = false := by
  unfold presented
  split
  · rfl
  split
  · rfl
  split
  · rfl
  split
  · rfl
  split <;> rfl

theorem visit_succeeded (h : Visits rows id r p p') : p'.succeeded = false := by
  cases h with
  | presented _ => exact presented_succeeded _ id r
  | _ => rfl

theorem aborted_succeeded (h : Aborted p') : p'.succeeded = false := by
  cases h <;> rfl

/-- The token of a call that succeeds with this commit had not been rotated before it. -/
theorem finish_succeeded {a : RotateArgs} (hrows : RowsOk rows) (hp : p.Ok rows)
    (h : Finishes rows p rows' (.rotate a (.done .ok))) (hr : rows.get? id = some r)
    (hhash : r.hash = a.presentedHash) : r.rotated = false := by
  cases h with
  | @rotate id' r' _ _ _ =>
    obtain ⟨hr', hl, hpres⟩ := hp
    obtain rfl := hrows.hash _ _ r _ hr hr' (hhash.trans hpres.symm)
    rw [hr] at hr'
    cases hr'
    exact (Row.live_iff.mp hl).1

end

/-! ## The steps of the system -/

/-- The events, as a relation. -/
inductive Steps (s : State) : Event → State → Prop where
  | issue {id device hash : String} {login : Login} {createdAt expiresAt : Nat} (hid : s.idFree id = true)
      (hhash : hashFree s.rows hash = true) :
      Steps s (.issue id device hash login createdAt expiresAt)
        { s with rows := s.rows.insert id ⟨id, device, hash, login, createdAt, expiresAt, false, false⟩ }
  | rotate {a : RotateArgs} : Steps s (.rotate a) { s with procs := s.procs ++ [.rotate a .start] }
  | revokeFamily {f : String} :
      Steps s (.revokeFamily f) { s with procs := s.procs ++ [.revoke f (.start [])] }
  | begin {i : Nat} {p p' : Proc} (hp : s.procs[i]? = some p) (h : Begins s.rows p p') :
      Steps s (.begin i) (s.setProc i p')
  | visit {i : Nat} {id : String} {p p' : Proc} {r : Row} (hp : s.procs[i]? = some p)
      (hr : s.rows.get? id = some r) (hfree : s.free i id = true) (h : Visits s.rows id r p p') :
      Steps s (.visit i id) (s.setProc i p')
  | finish {i : Nat} {p p' : Proc} {rows' : Rows} (hp : s.procs[i]? = some p)
      (h : Finishes s.rows p rows' p') : Steps s (.finish i) { s.setProc i p' with rows := rows' }
  | abort {i : Nat} {p p' : Proc} (hp : s.procs[i]? = some p) (h : Aborted p') :
      Steps s (.abort i) (s.setProc i p')

variable {s : State}

theorem step_cases {s' : State} {e : Event} (h : step s e = some s') : Steps s e s' := by
  cases e with
  | issue id device hash login createdAt expiresAt =>
    simp only [step] at h
    split at h
    · rename_i hfree
      cases h
      exact .issue (Bool.and_eq_true_iff.mp hfree).1 (Bool.and_eq_true_iff.mp hfree).2
    · cases h
  | rotate a =>
    cases h
    exact .rotate
  | revokeFamily f =>
    cases h
    exact .revokeFamily
  | begin i =>
    obtain ⟨p, hp, h⟩ := Option.bind_eq_some_iff.mp h
    obtain ⟨p', hp', h⟩ := Option.bind_eq_some_iff.mp h
    cases h
    exact .begin hp (begin_cases hp')
  | visit i id =>
    obtain ⟨p, hp, h⟩ := Option.bind_eq_some_iff.mp h
    obtain ⟨r, hr, h⟩ := Option.bind_eq_some_iff.mp h
    split at h
    · rename_i hfree
      obtain ⟨p', hp', h⟩ := Option.bind_eq_some_iff.mp h
      cases h
      exact .visit hp hr hfree (visit_cases hp')
    · cases h
  | finish i =>
    obtain ⟨p, hp, h⟩ := Option.bind_eq_some_iff.mp h
    obtain ⟨x, hx, h⟩ := Option.bind_eq_some_iff.mp h
    cases h
    exact .finish hp (finish_cases hx)
  | abort i =>
    obtain ⟨p, hp, h⟩ := Option.bind_eq_some_iff.mp h
    obtain ⟨p', hp', h⟩ := Option.bind_eq_some_iff.mp h
    cases h
    exact .abort hp (abort_cases hp')

/-! ## The invariant of all runs -/

/-- The committed rows are in order, every call knows what it has established, no two hold one lock, and a token is
exchanged once. -/
structure Inv (s : State) : Prop where
  rows : RowsOk s.rows
  ok : ∀ (i : Nat) p, s.procs[i]? = some p → p.Ok s.rows
  locks : ∀ (i j : Nat) p q, s.procs[i]? = some p → s.procs[j]? = some q → i ≠ j → ∀ id ∈ p.locks, id ∉ q.locks
  once : ∀ (i j : Nat) a b, s.procs[i]? = some (.rotate a (.done .ok)) →
    s.procs[j]? = some (.rotate b (.done .ok)) → a.presentedHash = b.presentedHash → i = j

theorem inv_empty : Inv .empty where
  rows := ⟨fun id id' r r' h => by simp [State.empty] at h, fun id id' r r' h => by simp [State.empty] at h⟩
  ok i p h := by simp [State.empty] at h
  locks i j p q h := by simp [State.empty] at h
  once i j a b h := by simp [State.empty] at h

variable {i j : Nat} {q : Proc}

/-- A call after one of them has changed: that one, or another as it was. -/
theorem getElem?_set {procs : List Proc} (h : (procs.set i p')[j]? = some q) :
    (j = i ∧ q = p') ∨ (j ≠ i ∧ procs[j]? = some q) := by
  by_cases hji : j = i
  · subst hji
    rw [getElem?_set_self'] at h
    obtain ⟨_, _, rfl⟩ := Option.map_eq_some_iff.mp h
    exact Or.inl ⟨rfl, rfl⟩
  · rw [getElem?_set_ne (Ne.symm hji)] at h
    exact Or.inr ⟨hji, h⟩

/-- A call after another has come: an earlier one, or the new one. -/
theorem getElem?_append_one {procs : List Proc} (h : (procs ++ [p])[j]? = some q) :
    procs[j]? = some q ∨ (j = procs.length ∧ q = p) := by
  rcases Nat.lt_or_ge j procs.length with hj | hj
  · rw [getElem?_append_left hj] at h
    exact Or.inl h
  rw [getElem?_append_right hj] at h
  cases hd : j - procs.length with
  | zero =>
    rw [hd] at h
    exact Or.inr ⟨by omega, (Option.some.inj h).symm⟩
  | succ n => simp [hd] at h

/-- A row that is free for a call is locked by no other. -/
theorem not_mem_locks_of_free (hfree : s.free i id = true) (hq : s.procs[j]? = some q) (hji : j ≠ i) :
    id ∉ q.locks := by
  have hmem : q ∈ s.procs.eraseIdx i := mem_eraseIdx_iff_getElem?.mpr ⟨j, hji, hq⟩
  exact of_decide_eq_true (all_eq_true.mp hfree q hmem)

/-- One call changes, with what it commits. -/
theorem Inv.change (hinv : Inv s) {rows' : Rows} (hp : s.procs[i]? = some p) (hw : Writes s.rows rows' p.locks [])
    (hrows : RowsOk rows') (hok : p'.Ok rows') (hlocks : ∀ id ∈ p'.locks, id ∈ p.locks ∨ s.free i id = true)
    (honce : ∀ a, p' = .rotate a (.done .ok) → ∀ id r, s.rows.get? id = some r →
      r.hash = a.presentedHash → r.rotated = false) :
    Inv { s.setProc i p' with rows := rows' } := by
  -- no other call holds a lock of this one, before or after
  have hother : ∀ (j : Nat) q, s.procs[j]? = some q → j ≠ i → ∀ id ∈ p'.locks, id ∉ q.locks := by
    intro j q hq hji id hid
    rcases hlocks id hid with hid | hfree
    · exact hinv.locks i j p q hp hq (Ne.symm hji) id hid
    · exact not_mem_locks_of_free hfree hq hji
  -- and none has succeeded with the token that this one succeeds with
  have hnone : ∀ (j : Nat) a b, s.procs[j]? = some (.rotate a (.done .ok)) → p' = .rotate b (.done .ok) →
      a.presentedHash = b.presentedHash → False := by
    intro j a b hq hp' heq
    obtain ⟨id, r, hr, hhash, hrot⟩ := hinv.ok j _ hq
    rw [honce b hp' id r hr (hhash.trans heq)] at hrot
    cases hrot
  constructor
  case rows => exact hrows
  case ok =>
    intro j q hq
    rcases getElem?_set hq with ⟨_, rfl⟩ | ⟨hji, hq⟩
    · exact hok
    · exact (hinv.ok j q hq).frame hw hinv.rows (hinv.locks i j p q hp hq (Ne.symm hji))
  case locks =>
    intro j k q₁ q₂ h₁ h₂ hjk id hid hid'
    rcases getElem?_set h₁ with ⟨rfl, rfl⟩ | ⟨hj, hq₁⟩
    · rcases getElem?_set h₂ with ⟨rfl, _⟩ | ⟨hk, hq₂⟩
      · exact hjk rfl
      · exact hother k q₂ hq₂ hk id hid hid'
    rcases getElem?_set h₂ with ⟨rfl, rfl⟩ | ⟨_, hq₂⟩
    · exact hother j q₁ hq₁ hj id hid' hid
    · exact hinv.locks j k q₁ q₂ hq₁ hq₂ hjk id hid hid'
  case once =>
    intro j k a b h₁ h₂ heq
    rcases getElem?_set h₁ with ⟨rfl, hj⟩ | ⟨_, hq₁⟩
    · rcases getElem?_set h₂ with ⟨rfl, _⟩ | ⟨_, hq₂⟩
      · rfl
      · exact (hnone k b a hq₂ hj.symm heq.symm).elim
    rcases getElem?_set h₂ with ⟨rfl, hk⟩ | ⟨_, hq₂⟩
    · exact (hnone j a b hq₁ hk.symm heq).elim
    · exact hinv.once j k a b hq₁ hq₂ heq

theorem not_succeeded (h : p.succeeded = false) (a : RotateArgs) : p ≠ .rotate a (.done .ok) := by
  rintro rfl
  cases h

/-- A call comes. -/
theorem Inv.spawn (hinv : Inv s) (hok : p.Ok s.rows) (hlocks : p.locks = []) (hnew : p.succeeded = false) :
    Inv { s with procs := s.procs ++ [p] } := by
  constructor
  case rows => exact hinv.rows
  case ok =>
    intro j q hq
    rcases getElem?_append_one hq with hq | ⟨_, rfl⟩
    · exact hinv.ok j q hq
    · exact hok
  case locks =>
    intro j k q₁ q₂ h₁ h₂ hjk id hid hid'
    rcases getElem?_append_one h₁ with h₁ | ⟨_, rfl⟩
    · rcases getElem?_append_one h₂ with h₂ | ⟨_, rfl⟩
      · exact hinv.locks j k q₁ q₂ h₁ h₂ hjk id hid hid'
      · simp [hlocks] at hid'
    · simp [hlocks] at hid
  case once =>
    intro j k a b h₁ h₂ heq
    rcases getElem?_append_one h₁ with h₁ | ⟨_, hj⟩
    · rcases getElem?_append_one h₂ with h₂ | ⟨_, hk⟩
      · exact hinv.once j k a b h₁ h₂ heq
      · exact absurd hk.symm (not_succeeded hnew b)
    · exact absurd hj.symm (not_succeeded hnew a)

/-! ### Issue -/

/-- An id that is free is the id of no row and of no family, and no call revokes it. -/
theorem idFree_iff : s.idFree id = true ↔ s.rows.get? id = none ∧ (∀ k r, s.rows.get? k = some r → r.family ≠ id) ∧
      ∀ p ∈ s.procs, p.revokes id = false := by
  unfold State.idFree
  simp only [Bool.and_eq_true, Option.isNone_iff_eq_none, Bool.not_eq_true', Bool.eq_false_iff, ne_eq,
    Table.any_eq_true, List.any_eq_true, not_exists, not_and, decide_eq_true_eq, and_assoc]

/-- The first row of a family. -/
theorem insert_writes (hfree : s.idFree id = true) (hfam : r.family = id) :
    Writes s.rows (s.rows.insert id r) [] [id] := by
  obtain ⟨hnone, hfamilies, _⟩ := idFree_iff.mp hfree
  constructor
  case keep =>
    intro k r₀ hr₀
    have hne : k ≠ id := by
      rintro rfl
      simp [hnone] at hr₀
    exact ⟨r₀, by rw [Table.get?_insert, if_neg hne, hr₀], Row.Later.refl r₀, fun _ => rfl⟩
  case new =>
    intro k r' hr' hn
    rw [Table.get?_insert] at hr'
    split at hr'
    · cases hr'
      exact Or.inl (hfam ▸ mem_singleton_self _)
    · simp [hn] at hr'
  case fresh =>
    intro f hf k r₀ hr₀
    rw [mem_singleton.mp hf]
    exact hfamilies k r₀ hr₀

theorem RowsOk.insert (hok : RowsOk s.rows) (hfree : s.idFree id = true) (hfam : r.family = id)
    (hhash : hashFree s.rows r.hash = true) : RowsOk (s.rows.insert id r) := by
  obtain ⟨_, hfamilies, _⟩ := idFree_iff.mp hfree
  have hnew := hashFree_iff.mp hhash
  constructor
  case hash =>
    intro i j r₁ r₂ h₁ h₂ heq
    rw [Table.get?_insert] at h₁ h₂
    split at h₁ <;> split at h₂
    · simp_all
    · cases h₁
      exact absurd heq.symm (hnew j r₂ h₂)
    · cases h₂
      exact absurd heq (hnew i r₁ h₁)
    · exact hok.hash i j r₁ r₂ h₁ h₂ heq
  case live =>
    intro i j r₁ r₂ h₁ h₂ hl₁ hl₂ hf
    rw [Table.get?_insert] at h₁ h₂
    split at h₁ <;> split at h₂
    · simp_all
    · cases h₁
      exact absurd (hf.symm.trans hfam) (hfamilies j r₂ h₂)
    · cases h₂
      exact absurd (hf.trans hfam) (hfamilies i r₁ h₁)
    · exact hok.live i j r₁ r₂ h₁ h₂ hl₁ hl₂ hf

/-- Every event keeps the invariant. -/
theorem Inv.step {s' : State} {e : Event} (hinv : Inv s) (h : Steps s e s') : Inv s' := by
  -- each event replaces one call; `Inv.change` and `Inv.spawn` carry the others along
  cases h with
  | issue hid hhash =>
    refine ⟨hinv.rows.insert hid rfl hhash, ?_, hinv.locks, hinv.once⟩
    intro j q hq
    exact (hinv.ok j q hq).frame (insert_writes hid rfl) hinv.rows fun id hid => absurd hid not_mem_nil
  | rotate => exact hinv.spawn trivial rfl rfl
  | revokeFamily => exact hinv.spawn trivial rfl rfl
  | @begin i p p' hp h =>
    obtain ⟨hok, hlocks⟩ := begin_ok (hinv.ok i p hp) h
    refine hinv.change hp (Writes.refl _ _) hinv.rows hok (fun id hid => Or.inl (hlocks ▸ hid)) ?_
    exact fun a ha => absurd ha (not_succeeded (begin_succeeded h) a)
  | @visit i id p p' r hp hr hfree h =>
    obtain ⟨hok, hlocks⟩ := visit_ok (hinv.ok i p hp) hr h
    refine hinv.change hp (Writes.refl _ _) hinv.rows hok (fun x hx => ?_) ?_
    · rcases hlocks x hx with hx | rfl
      · exact Or.inl hx
      · exact Or.inr hfree
    · exact fun a ha => absurd ha (not_succeeded (visit_succeeded h) a)
  | @finish i p p' rows' hp h =>
    obtain ⟨hw, hrows, hok, hlocks⟩ := finish_ok hinv.rows (hinv.ok i p hp) h
    refine hinv.change hp hw hrows hok (fun id hid => ?_) fun a ha id r hr hhash => ?_
    · simp [hlocks] at hid
    · exact finish_succeeded hinv.rows (hinv.ok i p hp) (ha ▸ h) hr hhash
  | @abort i p p' hp h =>
    obtain ⟨hok, hlocks⟩ := aborted_ok h
    refine hinv.change hp (Writes.refl _ _) hinv.rows hok (fun id hid => ?_) ?_
    · simp [hlocks] at hid
    · exact fun a ha => absurd ha (not_succeeded (aborted_succeeded h) a)

end GoErp.Session
