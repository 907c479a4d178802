import Mathlib.Data.List.Perm.Basic
import Mathlib.Data.Prod.Lex
import GoErp.Lib.Arrangement
import GoErp.Lib.Assoc

/-!
# `Ws.PresenceMerge` — the users of a record from its presence entries

`mergePresence` (`ws/presence.go`) sorts the entries of all connections by (`JoinedAt`, `UserID`, `Name`), folds the
entries of one user into the first of them and sorts the users. `slices.SortFunc` is not stable and `HGETALL` has no
order, so `Merges` is the relation between the entries and the lists they may give.

The list is the same for every order exactly if the entries that may be first agree (`merges_unique_iff`). `Text` is
the type of ids, names and fields; times are nanoseconds.
-/

namespace GoErp.Ws

open Lib List

/-- A user as others see them. -/
structure PresenceUser (Text : Type) where
  userID : Text
  name : Text
  avatarURL : Option Text
  editingField : Option Text
  joinedAt : Nat
  lastSeenAt : Nat
deriving DecidableEq, Repr

/-- An entry of the hash: one of a user's connections. -/
structure PresenceEntry (Text : Type) extends PresenceUser Text where
  focusedAt : Option Nat
deriving DecidableEq, Repr

variable {Text : Type}

/-- Orders focus times: an entry that was never focused comes before all others. -/
def focusRank : Option Nat → Nat
  | none => 0
  | some t => t + 1

namespace PresenceEntry

/-- The later of the two times at which the user was seen. -/
def mergeSeen (merged entry : PresenceEntry Text) : PresenceEntry Text :=
  if merged.lastSeenAt < entry.lastSeenAt then { merged with lastSeenAt := entry.lastSeenAt } else merged

/-- The field of the later focus; of two at the same time the one already there. -/
def mergeFocus (merged entry : PresenceEntry Text) : PresenceEntry Text :=
  match entry.focusedAt with
  | none => merged
  | some focused =>
    if merged.focusedAt.all (· < focused) then
      { merged with focusedAt := some focused, editingField := entry.editingField }
    else merged

/-- One round of the loop for a user already found. -/
def merge (merged entry : PresenceEntry Text) : PresenceEntry Text := (merged.mergeSeen entry).mergeFocus entry

/-- What the loop never changes. -/
def base (e : PresenceEntry Text) : Text × Text × Option Text × Nat := (e.userID, e.name, e.avatarURL, e.joinedAt)

/-- What the latest focus decides. -/
def editing (e : PresenceEntry Text) : Option Nat × Option Text := (e.focusedAt, e.editingField)

variable (m e : PresenceEntry Text)

theorem mergeSeen_eq : m.mergeSeen e = { m with lastSeenAt := max m.lastSeenAt e.lastSeenAt } := by
  unfold mergeSeen
  split
  · rw [Nat.max_eq_right (by omega)]
  · rw [Nat.max_eq_left (by omega)]

theorem mergeFocus_eq : m.mergeFocus e =
      if focusRank m.focusedAt < focusRank e.focusedAt then
        { m with focusedAt := e.focusedAt, editingField := e.editingField }
      else m := by
  unfold mergeFocus
  cases e.focusedAt with
  | none => rfl
  | some t =>
    have hiff : m.focusedAt.all (· < t) = true ↔ focusRank m.focusedAt < focusRank (some t) := by
      cases m.focusedAt <;> simp [focusRank]
    simp only [hiff]

theorem base_merge : (m.merge e).base = m.base := by
  rw [merge, mergeFocus_eq, mergeSeen_eq]
  split <;> rfl

/-- The later of the two times. -/
theorem lastSeenAt_merge : (m.merge e).lastSeenAt = max m.lastSeenAt e.lastSeenAt := by
  rw [merge, mergeFocus_eq, mergeSeen_eq]
  split <;> rfl

/-- The field of the later focus. -/
theorem editing_merge :
    (m.merge e).editing = if focusRank m.focusedAt < focusRank e.focusedAt then e.editing else m.editing := by
  rw [merge, mergeFocus_eq, mergeSeen_eq]
  split <;> rfl

/-- The entries of one user, after the first. -/
def mergeAll (e : PresenceEntry Text) (es : List (PresenceEntry Text)) : PresenceEntry Text := es.foldl merge e

theorem base_mergeAll (e : PresenceEntry Text) (es : List (PresenceEntry Text)) : (e.mergeAll es).base = e.base := by
  induction es generalizing e with
  | nil => rfl
  | cons x es ih => exact (ih (e.merge x)).trans (base_merge e x)

/-- The latest time of all. -/
theorem lastSeenAt_mergeAll (e : PresenceEntry Text) (es : List (PresenceEntry Text)) :
    (e.mergeAll es).lastSeenAt = ((e :: es).map (·.lastSeenAt)).foldl max 0 := by
  rw [map_cons, foldl_cons, Nat.zero_max]
  induction es generalizing e with
  | nil => rfl
  | cons x es ih =>
    rw [map_cons, foldl_cons, ← lastSeenAt_merge]
    exact ih (e.merge x)

theorem focusRank_mergeAll_lt {k : Nat} {e : PresenceEntry Text} {es : List (PresenceEntry Text)}
    (he : focusRank e.focusedAt < k) (hes : ∀ x ∈ es, focusRank x.focusedAt < k) :
    focusRank (e.mergeAll es).focusedAt < k := by
  induction es generalizing e with
  | nil => exact he
  | cons x es ih =>
    apply ih (e := e.merge x) _ fun y hy => hes y (by simp [hy])
    have heq : (e.merge x).focusedAt = _ := congrArg Prod.fst (editing_merge e x)
    rw [heq]
    split
    · exact hes x (by simp)
    · exact he

/-- The first entry's field stays if no later one has a later focus. -/
theorem editing_mergeAll_of_le {e : PresenceEntry Text} {es : List (PresenceEntry Text)}
    (hes : ∀ x ∈ es, focusRank x.focusedAt ≤ focusRank e.focusedAt) : (e.mergeAll es).editing = e.editing := by
  induction es generalizing e with
  | nil => rfl
  | cons x es ih =>
    have hx : ¬ focusRank e.focusedAt < focusRank x.focusedAt := Nat.not_lt.mpr (hes x (by simp))
    have hmerge : (e.merge x).editing = e.editing := by rw [editing_merge, if_neg hx]
    have hfocused : (e.merge x).focusedAt = e.focusedAt := congrArg Prod.fst hmerge
    rw [← hmerge]
    apply ih
    rw [hfocused]
    exact fun y hy => hes y (by simp [hy])

end PresenceEntry

open PresenceEntry

/-- What the loop leaves for a user with these entries. -/
def combine : List (PresenceEntry Text) → Option (PresenceEntry Text)
  | [] => none
  | e :: es => some (e.mergeAll es)

/-- The edited field is that of the first entry among those focused last. -/
theorem editing_combine {pre post : List (PresenceEntry Text)} {b : PresenceEntry Text}
    (hpre : ∀ x ∈ pre, focusRank x.focusedAt < focusRank b.focusedAt)
    (hpost : ∀ y ∈ post, focusRank y.focusedAt ≤ focusRank b.focusedAt) :
    (combine (pre ++ b :: post)).map editing = some b.editing := by
  cases pre with
  | nil => exact congrArg some (editing_mergeAll_of_le hpost)
  | cons e pre =>
    have hlt : focusRank (e.mergeAll pre).focusedAt < focusRank b.focusedAt :=
      focusRank_mergeAll_lt (hpre e (by simp)) fun x hx => hpre x (by simp [hx])
    have hb : ((e.mergeAll pre).merge b).editing = b.editing := by rw [editing_merge, if_pos hlt]
    have hfocused : ((e.mergeAll pre).merge b).focusedAt = b.focusedAt := congrArg Prod.fst hb
    have hrest : (((e.mergeAll pre).merge b).mergeAll post).editing = b.editing := by
      rw [← hb]
      apply editing_mergeAll_of_le
      rw [hfocused]
      exact hpost
    rw [← hrest]
    show some (mergeAll e (pre ++ b :: post)).editing = _
    rw [mergeAll, foldl_append]
    rfl

/-! ## The loop over all entries -/

/-- What the first sort compares. -/
def PresenceEntry.entryKey (e : PresenceEntry Text) : Nat ×ₗ Text ×ₗ Text :=
  toLex (e.joinedAt, toLex (e.userID, e.name))

/-- What the second sort compares. -/
def PresenceUser.userKey (u : PresenceUser Text) : Nat ×ₗ Text := toLex (u.joinedAt, u.userID)

theorem eq_of_entryKey_eq {a b : PresenceEntry Text} (h : a.entryKey = b.entryKey) :
    a.joinedAt = b.joinedAt ∧ a.name = b.name := by
  have h1 := Prod.mk.inj (toLex.injective h)
  have h2 := Prod.mk.inj (toLex.injective h1.2)
  exact ⟨h1.1, h2.2⟩

section

variable [LinearOrder Text]

/-- One round of the loop. -/
def mergeInto (users : List (Text × PresenceEntry Text)) (entry : PresenceEntry Text) :
    List (Text × PresenceEntry Text) :=
  match Assoc.get? users entry.userID with
  | none => Assoc.put users entry.userID entry
  | some merged => Assoc.put users entry.userID (merged.merge entry)

/-- The loop over the entries: one entry for each user. -/
def mergeUsers (entries : List (PresenceEntry Text)) : List (Text × PresenceEntry Text) := entries.foldl mergeInto []

/-- `mergePresence` after its first sort. -/
def mergeSorted (entries : List (PresenceEntry Text)) : List (PresenceUser Text) :=
  sortBy PresenceUser.userKey ((mergeUsers entries).map fun x => x.2.toPresenceUser)

/-- `mergePresence` with a stable sort. -/
def mergePresence (entries : List (PresenceEntry Text)) : List (PresenceUser Text) :=
  mergeSorted (sortBy entryKey entries)

/-- `users` may be the result of `mergePresence` for these entries, in whatever order they come and whatever the sort
does with ties. -/
def Merges (entries : List (PresenceEntry Text)) (users : List (PresenceUser Text)) : Prop :=
  ∃ sorted, Arrangement entryKey entries sorted ∧ users = mergeSorted sorted

variable {entries : List (PresenceEntry Text)}

theorem merges_mergePresence {order : List (PresenceEntry Text)} (h : order.Perm entries) :
    Merges entries (mergePresence order) :=
  ⟨_, (arrangement_sortBy entryKey order).of_perm h, rfl⟩

/-- The entries of a user. -/
def ofUser (entries : List (PresenceEntry Text)) (u : Text) : List (PresenceEntry Text) :=
  entries.filter fun e => e.userID = u

variable {u : Text}

theorem mem_ofUser {e : PresenceEntry Text} : e ∈ ofUser entries u ↔ e ∈ entries ∧ e.userID = u := by
  simp [ofUser]

theorem get?_foldl_mergeInto (entries : List (PresenceEntry Text)) (users : List (Text × PresenceEntry Text))
    (u : Text) : Assoc.get? (entries.foldl mergeInto users) u =
      match Assoc.get? users u with
      | none => combine (ofUser entries u)
      | some m => some (m.mergeAll (ofUser entries u)) := by
  induction entries generalizing users with
  | nil =>
    show Assoc.get? users u = _
    cases Assoc.get? users u <;> rfl
  | cons e entries ih =>
    rw [foldl_cons, ih]
    by_cases he : e.userID = u
    · -- the entry is of this user: it starts the fold or goes into it
      have hof : ofUser (e :: entries) u = e :: ofUser entries u := filter_cons_of_pos (by simpa using he)
      rw [hof, mergeInto, he]
      cases hget : Assoc.get? users u with
      | none | some m =>
        rw [Assoc.get?_put, if_pos rfl]
        rfl
    · have hof : ofUser (e :: entries) u = ofUser entries u := filter_cons_of_neg (by simpa using he)
      have hget : Assoc.get? (mergeInto users e) u = Assoc.get? users u := by
        unfold mergeInto
        split <;> rw [Assoc.get?_put, if_neg (Ne.symm he)]
      rw [hof, hget]

/-- A user's entry is made of that user's entries alone, in their order. -/
theorem get?_mergeUsers (entries : List (PresenceEntry Text)) (u : Text) :
    Assoc.get? (mergeUsers entries) u = combine (ofUser entries u) :=
  get?_foldl_mergeInto entries [] u

theorem nodup_mergeUsers (entries : List (PresenceEntry Text)) : ((mergeUsers entries).map Prod.fst).Nodup := by
  have hkeep : ∀ (es : List (PresenceEntry Text)) (users : List (Text × PresenceEntry Text)),
      (users.map Prod.fst).Nodup → ((es.foldl mergeInto users).map Prod.fst).Nodup := by
    intro es
    induction es with
    | nil => exact fun _ h => h
    | cons e es ih =>
      intro users h
      apply ih
      unfold mergeInto
      split <;> exact Assoc.nodup_put h _ _
  exact hkeep entries [] nodup_nil

theorem userID_of_combine {m : PresenceEntry Text} (h : combine (ofUser entries u) = some m) : m.userID = u := by
  cases hof : ofUser entries u with
  | nil =>
    rw [hof] at h
    simp [combine] at h
  | cons e es =>
    rw [hof] at h
    cases h
    have he : e ∈ ofUser entries u := hof ▸ mem_cons_self
    have hbase : (e.mergeAll es).userID = e.userID := congrArg Prod.fst (base_mergeAll e es)
    exact hbase.trans (mem_ofUser.mp he).2

/-- What the list says of a user. -/
def userOf (entries : List (PresenceEntry Text)) (u : Text) : Option (PresenceUser Text) :=
  (combine (ofUser entries u)).map toPresenceUser

variable {x : PresenceUser Text}

theorem userID_of_userOf (h : userOf entries u = some x) : x.userID = u := by
  obtain ⟨m, hm, rfl⟩ := Option.map_eq_some_iff.mp h
  exact userID_of_combine hm

theorem mem_mergeUsers_iff :
    x ∈ (mergeUsers entries).map (fun y => y.2.toPresenceUser) ↔ userOf entries x.userID = some x := by
  constructor
  · intro hx
    obtain ⟨⟨u, m⟩, hmem, rfl⟩ := mem_map.mp hx
    have hget := Assoc.get?_of_mem (nodup_mergeUsers entries) hmem
    rw [get?_mergeUsers] at hget
    have hu : m.userID = u := userID_of_combine hget
    show userOf entries m.userID = _
    rw [userOf, hu, hget]
    rfl
  · intro h
    obtain ⟨m, hm, hx⟩ := Option.map_eq_some_iff.mp h
    rw [← get?_mergeUsers] at hm
    obtain ⟨y, hy, rfl⟩ := Option.map_eq_some_iff.mp hm
    exact mem_map.mpr ⟨y, mem_of_find?_eq_some hy, hx⟩

/-- The list holds what it says of each user. -/
theorem mem_mergeSorted : x ∈ mergeSorted entries ↔ userOf entries x.userID = some x :=
  (arrangement_sortBy PresenceUser.userKey _).mem_iff.trans mem_mergeUsers_iff

theorem nodup_users (entries : List (PresenceEntry Text)) :
    ((mergeUsers entries).map fun y => y.2.toPresenceUser).Nodup := by
  have hids : ((mergeUsers entries).map fun y => y.2.userID).Nodup := by
    have hsame : (mergeUsers entries).map (fun y => y.2.userID) = (mergeUsers entries).map Prod.fst := by
      apply map_congr_left
      rintro ⟨u, m⟩ hmem
      have hget := Assoc.get?_of_mem (nodup_mergeUsers entries) hmem
      rw [get?_mergeUsers] at hget
      exact userID_of_combine hget
    rw [hsame]
    exact nodup_mergeUsers entries
  apply List.Nodup.of_map PresenceUser.userID
  rw [List.map_map]
  exact hids

/-- The list is determined by what it says of each user. -/
theorem mergeSorted_eq_iff (entries entries' : List (PresenceEntry Text)) :
    mergeSorted entries = mergeSorted entries' ↔ ∀ u, userOf entries u = userOf entries' u := by
  constructor
  · intro h u
    have hsub : ∀ {a b : List (PresenceEntry Text)}, mergeSorted a = mergeSorted b →
        ∀ x, userOf a u = some x → userOf b u = some x := by
      intro a b hab x hx
      have hid := userID_of_userOf hx
      rw [← hid] at hx ⊢
      rw [← mem_mergeSorted] at hx ⊢
      rw [← hab]
      exact hx
    apply Option.ext
    intro x
    exact ⟨hsub h x, hsub h.symm x⟩
  · intro h
    have hmem : ∀ x, x ∈ (mergeUsers entries).map (fun y => y.2.toPresenceUser) ↔
        x ∈ (mergeUsers entries').map fun y => y.2.toPresenceUser := by
      intro x
      rw [mem_mergeUsers_iff, mem_mergeUsers_iff, h]
    have hperm := (perm_ext_iff_of_nodup (nodup_users entries) (nodup_users entries')).mpr hmem
    apply ((arrangement_sortBy PresenceUser.userKey _).of_perm hperm).unique (arrangement_sortBy _ _)
    -- one entry for each user: the key tells the users apart
    intro a ha b hb hkey
    have hid : a.userID = b.userID := (Prod.mk.inj (toLex.injective hkey)).2
    rw [mem_mergeUsers_iff, hid] at ha
    rw [mem_mergeUsers_iff] at hb
    exact Option.some.inj (ha.symm.trans hb)

/-! ## Ties -/

/-- No entry of the user comes before `e` in the order of the first sort. -/
def Earliest (entries : List (PresenceEntry Text)) (e : PresenceEntry Text) : Prop :=
  ∀ x ∈ entries, x.userID = e.userID → e.entryKey ≤ x.entryKey

/-- No entry of the user was focused later than `e`, and of those focused at the same time none comes before it. -/
def LastFocused (entries : List (PresenceEntry Text)) (e : PresenceEntry Text) : Prop :=
  ∀ x ∈ entries, x.userID = e.userID →
    focusRank x.focusedAt ≤ focusRank e.focusedAt ∧
      (focusRank x.focusedAt = focusRank e.focusedAt → e.entryKey ≤ x.entryKey)

/-- Entries of one user that may stand at the place that decides agree on what it decides. -/
def TiesAgree (entries : List (PresenceEntry Text)) : Prop :=
  ∀ a ∈ entries, ∀ b ∈ entries, a.userID = b.userID →
    (Earliest entries a → Earliest entries b → a.avatarURL = b.avatarURL) ∧
      (LastFocused entries a → LastFocused entries b → a.editingField = b.editingField)

instance (entries : List (PresenceEntry Text)) (e : PresenceEntry Text) : Decidable (Earliest entries e) :=
  inferInstanceAs (Decidable (∀ x ∈ entries, _))

instance (entries : List (PresenceEntry Text)) (e : PresenceEntry Text) : Decidable (LastFocused entries e) :=
  inferInstanceAs (Decidable (∀ x ∈ entries, _))

instance (entries : List (PresenceEntry Text)) : Decidable (TiesAgree entries) :=
  inferInstanceAs (Decidable (∀ a ∈ entries, _))

/-- Where the parts of a user come from, whatever the order of the entries. -/
theorem userOf_eq_some {sorted : List (PresenceEntry Text)} (hs : Arrangement entryKey entries sorted)
    (h : userOf sorted u = some x) :
    ∃ a ∈ ofUser entries u, ∃ b ∈ ofUser entries u, Earliest entries a ∧ LastFocused entries b ∧
      x = { userID := u, name := a.name, avatarURL := a.avatarURL, editingField := b.editingField,
            joinedAt := a.joinedAt, lastSeenAt := ((ofUser sorted u).map (·.lastSeenAt)).foldl max 0 } := by
  obtain ⟨m, hm, rfl⟩ := Option.map_eq_some_iff.mp h
  have hofs : Arrangement entryKey (ofUser entries u) (ofUser sorted u) := hs.filter _
  have hne : ofUser sorted u ≠ [] := by
    intro hnil
    rw [hnil] at hm
    simp [combine] at hm
  -- the fold keeps the head's name and joins it to the first entry of the latest focus
  obtain ⟨pre, b, post, hsplit, hpre, hpost⟩ := exists_first_max (fun e => focusRank e.focusedAt) hne
  obtain ⟨a, as, hcons⟩ := exists_cons_of_ne_nil hne
  have hord := hofs.2
  have ha : a ∈ ofUser entries u := hofs.mem_iff.mp (hcons ▸ mem_cons_self)
  have hb : b ∈ ofUser entries u := hofs.mem_iff.mp (by rw [hsplit]; simp)
  have hau := (mem_ofUser.mp ha).2
  have hbu := (mem_ofUser.mp hb).2
  refine ⟨a, ha, b, hb, ?_, ?_, ?_⟩
  · intro x hx hxu
    have hmem : x ∈ ofUser sorted u := hofs.mem_iff.mpr (mem_ofUser.mpr ⟨hx, hxu.trans hau⟩)
    rw [hcons] at hmem hord
    rcases mem_cons.mp hmem with rfl | hmem
    · exact le_refl _
    · exact (pairwise_cons.mp hord).1 x hmem
  · intro x hx hxu
    have hmem : x ∈ ofUser sorted u := hofs.mem_iff.mpr (mem_ofUser.mpr ⟨hx, hxu.trans hbu⟩)
    rw [hsplit] at hmem hord
    rcases mem_append.mp hmem with hmem | hmem
    · exact ⟨(hpre x hmem).le, fun heq => absurd heq (hpre x hmem).ne⟩
    rcases mem_cons.mp hmem with rfl | hmem
    · exact ⟨le_refl _, fun _ => le_refl _⟩
    · exact ⟨hpost x hmem, fun _ => (pairwise_cons.mp (pairwise_append.mp hord).2.1).1 x hmem⟩
  · have hediting : m.editing = b.editing := by
      have := editing_combine hpre hpost
      rw [← hsplit, hm] at this
      exact Option.some.inj this
    rw [hcons] at hm ⊢
    cases hm
    have hbase := base_mergeAll a as
    have hid : (a.mergeAll as).userID = u := (congrArg Prod.fst hbase).trans hau
    have hname : (a.mergeAll as).name = a.name := congrArg (·.2.1) hbase
    have havatar : (a.mergeAll as).avatarURL = a.avatarURL := congrArg (·.2.2.1) hbase
    have hjoined : (a.mergeAll as).joinedAt = a.joinedAt := congrArg (·.2.2.2) hbase
    have hfield : (a.mergeAll as).editingField = b.editingField := congrArg Prod.snd hediting
    rw [← hid, ← hname, ← havatar, ← hjoined, ← hfield, ← lastSeenAt_mergeAll]

/-- Where entries that tie agree, the order among them does not matter. -/
theorem userOf_eq_of_tiesAgree {s t : List (PresenceEntry Text)} (hties : TiesAgree entries)
    (hs : Arrangement entryKey entries s) (ht : Arrangement entryKey entries t)
    (hx : userOf s u = some x) : userOf t u = some x := by
  obtain ⟨a, ha, b, hb, hafirst, hblast, rfl⟩ := userOf_eq_some hs hx
  -- the user has an entry, so the other list has the user too
  have hmem : a ∈ ofUser t u := (ht.filter _).mem_iff.mpr ha
  obtain ⟨e, es, hcons⟩ := exists_cons_of_ne_nil (ne_nil_of_mem hmem)
  have hy : userOf t u = some (e.mergeAll es).toPresenceUser := by
    rw [userOf, hcons]
    rfl
  rw [hy]
  obtain ⟨a', ha', b', hb', hafirst', hblast', heq⟩ := userOf_eq_some ht hy
  rw [heq]
  obtain ⟨ha, hau⟩ := mem_ofUser.mp ha
  obtain ⟨hb, hbu⟩ := mem_ofUser.mp hb
  obtain ⟨ha', hau'⟩ := mem_ofUser.mp ha'
  obtain ⟨hb', hbu'⟩ := mem_ofUser.mp hb'
  have hkey : a'.entryKey = a.entryKey :=
    le_antisymm (hafirst' a ha (hau.trans hau'.symm)) (hafirst a' ha' (hau'.trans hau.symm))
  obtain ⟨hjoined, hname⟩ := eq_of_entryKey_eq hkey
  have havatar := (hties a' ha' a ha (hau'.trans hau.symm)).1 hafirst' hafirst
  have hfield := (hties b' hb' b hb (hbu'.trans hbu.symm)).2 hblast' hblast
  have hseen : ((ofUser t u).map (·.lastSeenAt)).foldl max 0 = ((ofUser s u).map (·.lastSeenAt)).foldl max 0 := by
    exact (((ht.1.trans hs.1.symm).filter _).map _).foldl_op_eq
  rw [hjoined, hname, havatar, hfield, hseen]

/-- An entry that may come first does so in some order, and its avatar is shown. -/
theorem exists_avatar {a : PresenceEntry Text} (ha : a ∈ entries) (hfirst : Earliest entries a) :
    ∃ s, Arrangement entryKey entries s ∧ (userOf s a.userID).map (·.avatarURL) = some a.avatarURL := by
  obtain ⟨pre, post, hs, hpre⟩ := exists_arrangement_split entryKey ha
  refine ⟨pre ++ a :: post, hs, ?_⟩
  have hnone : ofUser pre a.userID = [] := by
    rw [eq_nil_iff_forall_not_mem]
    intro x hx
    obtain ⟨hx, hxu⟩ := mem_ofUser.mp hx
    have hmem : x ∈ entries := hs.mem_iff.mp (by simp [hx])
    exact absurd (hpre x hx) (not_lt.mpr (hfirst x hmem hxu))
  have hof : ofUser (pre ++ a :: post) a.userID = a :: ofUser post a.userID := by
    rw [ofUser, filter_append, filter_cons_of_pos (by simp)]
    show ofUser pre a.userID ++ _ = _
    rw [hnone]
    rfl
  rw [userOf, hof]
  exact congrArg some (congrArg (·.2.2.1) (base_mergeAll a (ofUser post a.userID)))

/-- An entry that may be the first of those focused last is so in some order, and its field is shown. -/
theorem exists_editingField {b : PresenceEntry Text} (hb : b ∈ entries) (hlast : LastFocused entries b) :
    ∃ s, Arrangement entryKey entries s ∧ (userOf s b.userID).map (·.editingField) = some b.editingField := by
  obtain ⟨pre, post, hs, hpre⟩ := exists_arrangement_split entryKey hb
  refine ⟨pre ++ b :: post, hs, ?_⟩
  have hof : ofUser (pre ++ b :: post) b.userID = ofUser pre b.userID ++ b :: ofUser post b.userID := by
    rw [ofUser, filter_append, filter_cons_of_pos (by simp)]
    rfl
  have hbefore : ∀ x ∈ ofUser pre b.userID, focusRank x.focusedAt < focusRank b.focusedAt := by
    intro x hx
    obtain ⟨hx, hxu⟩ := mem_ofUser.mp hx
    obtain ⟨hle, htie⟩ := hlast x (hs.mem_iff.mp (by simp [hx])) hxu
    apply lt_of_le_of_ne hle
    intro heq
    exact absurd (hpre x hx) (not_lt.mpr (htie heq))
  have hafter : ∀ y ∈ ofUser post b.userID, focusRank y.focusedAt ≤ focusRank b.focusedAt := by
    intro y hy
    obtain ⟨hy, hyu⟩ := mem_ofUser.mp hy
    exact (hlast y (hs.mem_iff.mp (by simp [hy])) hyu).1
  have hediting := editing_combine hbefore hafter
  rw [userOf, hof]
  obtain ⟨m, hm, heq⟩ := Option.map_eq_some_iff.mp hediting
  rw [hm]
  exact congrArg some (congrArg Prod.snd heq)

/-- **The list does not depend on the order of the entries exactly if the ties agree.** -/
theorem merges_unique_iff (entries : List (PresenceEntry Text)) :
    (∀ us us', Merges entries us → Merges entries us' → us = us') ↔ TiesAgree entries := by
  constructor
  · intro huniq a ha b hb hab
    have hsame : ∀ {s t}, Arrangement entryKey entries s → Arrangement entryKey entries t →
        userOf s a.userID = userOf t b.userID := by
      intro s t hs ht
      rw [hab]
      exact (mergeSorted_eq_iff s t).mp (huniq _ _ ⟨s, hs, rfl⟩ ⟨t, ht, rfl⟩) b.userID
    refine ⟨fun hafirst hbfirst => ?_, fun halast hblast => ?_⟩
    · obtain ⟨s, hs, hsa⟩ := exists_avatar ha hafirst
      obtain ⟨t, ht, htb⟩ := exists_avatar hb hbfirst
      rw [hsame hs ht, htb] at hsa
      exact (Option.some.inj hsa).symm
    obtain ⟨s, hs, hsa⟩ := exists_editingField ha halast
    obtain ⟨t, ht, htb⟩ := exists_editingField hb hblast
    rw [hsame hs ht, htb] at hsa
    exact (Option.some.inj hsa).symm
  · rintro hties _ _ ⟨s, hs, rfl⟩ ⟨t, ht, rfl⟩
    rw [mergeSorted_eq_iff]
    intro u
    apply Option.ext
    intro x
    exact ⟨userOf_eq_of_tiesAgree hties hs ht, userOf_eq_of_tiesAgree hties ht hs⟩

/-! ## Without the time a user was last seen -/

/-- A user without the time last seen. -/
def PresenceUser.forget (u : PresenceUser Text) : PresenceUser Text := { u with lastSeenAt := 0 }

def PresenceEntry.forget (e : PresenceEntry Text) : PresenceEntry Text := { e with lastSeenAt := 0 }

omit [LinearOrder Text] in
theorem merge_forget (m e : PresenceEntry Text) : m.forget.merge e.forget = (m.merge e).forget := by
  rw [PresenceEntry.merge, PresenceEntry.merge, mergeFocus_eq, mergeFocus_eq, mergeSeen_eq, mergeSeen_eq]
  show (if focusRank m.focusedAt < focusRank e.focusedAt then _ else _) =
    PresenceEntry.forget (if focusRank m.focusedAt < focusRank e.focusedAt then _ else _)
  split <;> rfl

theorem mergeInto_forget (users : List (Text × PresenceEntry Text)) (e : PresenceEntry Text) :
    mergeInto (Assoc.mapValues PresenceEntry.forget users) e.forget =
      Assoc.mapValues PresenceEntry.forget (mergeInto users e) := by
  unfold mergeInto
  show (match Assoc.get? (Assoc.mapValues PresenceEntry.forget users) e.userID with
    | none => _
    | some merged => _) = _
  rw [Assoc.get?_mapValues]
  cases Assoc.get? users e.userID with
  | none => exact Assoc.put_mapValues PresenceEntry.forget users e.userID e
  | some m =>
    show Assoc.put _ e.userID (m.forget.merge e.forget) = _
    rw [merge_forget]
    exact Assoc.put_mapValues PresenceEntry.forget users e.userID (m.merge e)

theorem mergeUsers_forget (entries : List (PresenceEntry Text)) :
    mergeUsers (entries.map PresenceEntry.forget) = Assoc.mapValues PresenceEntry.forget (mergeUsers entries) := by
  have hfold : ∀ users, (entries.map PresenceEntry.forget).foldl mergeInto
      (Assoc.mapValues PresenceEntry.forget users) =
      Assoc.mapValues PresenceEntry.forget (entries.foldl mergeInto users) := by
    induction entries with
    | nil => exact fun _ => rfl
    | cons e entries ih =>
      intro users
      rw [map_cons, foldl_cons, foldl_cons, mergeInto_forget]
      exact ih _
  exact hfold []

/-- Forgetting the times last seen commutes with merging. -/
theorem mergeSorted_forget (entries : List (PresenceEntry Text)) :
    mergeSorted (entries.map PresenceEntry.forget) = (mergeSorted entries).map PresenceUser.forget := by
  have hkey : ∀ u : PresenceUser Text, u.forget.userKey = u.userKey := fun _ => rfl
  rw [mergeSorted, mergeSorted, mergeUsers_forget, ← sortBy_map hkey, Assoc.mapValues, List.map_map, List.map_map]
  rfl

theorem tiesAgree_forget (h : TiesAgree entries) : TiesAgree (entries.map PresenceEntry.forget) := by
  have hall : ∀ {p : PresenceEntry Text → Prop}, (∀ x ∈ entries.map PresenceEntry.forget, p x) →
      ∀ x ∈ entries, p x.forget := by
    intro p hp x hx
    exact hp _ (mem_map_of_mem hx)
  intro a' ha' b' hb' hab
  obtain ⟨a, ha, rfl⟩ := mem_map.mp ha'
  obtain ⟨b, hb, rfl⟩ := mem_map.mp hb'
  obtain ⟨havatar, hfield⟩ := h a ha b hb hab
  exact ⟨fun h1 h2 => havatar (hall h1) (hall h2), fun h1 h2 => hfield (hall h1) (hall h2)⟩

/-- The users are a merge of the entries but for the times last seen. -/
def Reflects (entries : List (PresenceEntry Text)) (users : List (PresenceUser Text)) : Prop :=
  Merges (entries.map PresenceEntry.forget) (users.map PresenceUser.forget)

/-- What the loop makes of any order of the entries reflects them. -/
theorem Merges.reflects {users : List (PresenceUser Text)} (h : Merges entries users) : Reflects entries users := by
  obtain ⟨sorted, hsorted, rfl⟩ := h
  refine ⟨sorted.map PresenceEntry.forget, hsorted.map fun _ => rfl, ?_⟩
  rw [mergeSorted_forget]

/-- Where the ties agree, the users are what every order of the entries gives. -/
theorem Reflects.eq_of_tiesAgree {users us : List (PresenceUser Text)}
    (h : Reflects entries users) (hties : TiesAgree entries) (hus : Merges entries us) :
    us.map PresenceUser.forget = users.map PresenceUser.forget :=
  (merges_unique_iff _).mpr (tiesAgree_forget hties) _ _ hus.reflects h

end

end GoErp.Ws
