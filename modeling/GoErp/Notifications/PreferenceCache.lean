import GoErp.Lib.Processes
import GoErp.Lib.Run
import GoErp.Notifications.Preferences

/-!
# `Notifications.PreferenceCache` — reading preferences through the cache

`Store.Preferences` and `Store.updatePreferences` (`notifications/preferences.go`) over `GetHash` and
`CompareAndSetHash` (`cache/client.go`), for one user and any number of concurrent calls. Every Redis call and every
read or commit of the database is one step; the Redis entry may disappear at any step. An update runs under an
advisory lock.

A generation is put in the cache fresh and never comes back once it has gone, so a reader that still finds its own
when it fills the cache has read the database after the last invalidation (`Inv`).
-/

namespace GoErp.Notifications

open Lib Lib.Run List

/-! ## The hash in Redis -/

/-- The fields `gen` and `data`; data that is not cached is `""`. -/
structure Hash where
  gen : String
  data : String
deriving DecidableEq, Repr

/-- `compareAndSetHashScript`: the entry after the script and whether it was set. -/
def compareAndSetHash (entry : Option Hash) (requireExists checkEtag : Bool) (expectedEtag dataValue newEtag : String) :
    Option Hash × Bool :=
  if requireExists ∧ entry.isNone then (entry, false)
  else if checkEtag ∧ entry.map Hash.gen ≠ some expectedEtag then (entry, false)
  else (some ⟨newEtag, dataValue⟩, true)

/-- `encoding/json` on `Preferences`. Marshalling may fail; what it writes is not empty and reads back. -/
structure Codec where
  marshal : Preferences → Option String
  unmarshal : String → Option Preferences
  unmarshal_marshal : ∀ p data, marshal p = some data → data ≠ "" ∧ unmarshal data = some p

/-! ## Calls and their steps -/

/-- A call of `Preferences`; an empty generation is one that fills nothing. -/
inductive Reader where
  | idle
  | noGen
  | loading (gen : String)
  | filling (gen : String) (p : Preferences)
  | returned (p : Preferences)
  | failed

/-- A call of `updatePreferences`. `committed` and `returned` hold the number of its commit. -/
inductive Writer where
  | idle
  | writing (rows : Rows)
  | committed (n : Nat)
  | returned (n : Nat)
  | failed

/-- The preference rows with their history, the cache entry, and where each reader and writer is. -/
structure State where
  older : List Rows
  rows : Rows
  lock : Option Nat
  entry : Option Hash
  /-- The generations that `uuid.New` has given so far. -/
  used : List String
  readers : Nat → Reader
  writers : Nat → Writer

def State.init (rows : Rows) : State := ⟨[], rows, none, none, [], fun _ => .idle, fun _ => .idle⟩

/-- The rows after each commit, the first being those at the start. -/
def State.history (s : State) : List Rows := s.older ++ [s.rows]

def State.setReader (s : State) (r : Nat) (pc : Reader) : State := { s with readers := Function.update s.readers r pc }

def State.setWriter (s : State) (w : Nat) (pc : Writer) : State := { s with writers := Function.update s.writers w pc }

def State.setEntry (s : State) (entry : Option Hash) : State := { s with entry := entry }

/-- `uuid.New().String()` -/
def State.newGen (s : State) (gen : String) : State := { s with used := gen :: s.used }

def State.commit (s : State) (rows : Rows) : State := { s with older := s.history, rows := rows }

/-- The steps of `Preferences` for a reader, of `updatePreferences` for a writer, and the loss of the entry. -/
inductive Event where
  | getHash (r : Nat)
  | startGen (r : Nat) (gen : String)
  | load (r : Nat) (ok : Bool)
  | fill (r : Nat)
  | begin (w : Nat) (global : Option ChannelsPatch) (types : List (String × ChannelsPatch)) (pinTypes : Bool)
  | commit (w : Nat) (result : Processes.CommitResult)
  | invalidate (w : Nat) (gen : String)
  | expire

section

variable (hasCache : Bool) (codec : Codec)

/-- Where a reader goes on after `GetHash`. -/
def afterGetHash : Option Hash → Reader
  | none => .noGen
  | some h =>
    match if h.data = "" then none else codec.unmarshal h.data with
    | some p => .returned p
    | none => if h.gen = "" then .noGen else .loading h.gen

/-- The fill after a load, which is skipped if marshalling fails. -/
def fillEntry (entry : Option Hash) (gen : String) (p : Preferences) : Option Hash :=
  match codec.marshal p with
  | some data => (compareAndSetHash entry true true gen data gen).1
  | none => entry

/-- One step. Readers and writers interleave in any order; a step out of its turn is `none`. -/
def step (s : State) : Event → Option State
  | .getHash r =>
    match s.readers r with
    | .idle => some (s.setReader r (if hasCache then afterGetHash codec s.entry else .loading ""))
    | _ => none
  | .startGen r gen =>
    match s.readers r with
    | .noGen =>
      if gen ≠ "" ∧ gen ∉ s.used then
        some (((s.newGen gen).setEntry (compareAndSetHash s.entry false false "" "" gen).1).setReader r (.loading gen))
      else none
    | _ => none
  | .load r ok =>
    match s.readers r with
    | .loading gen =>
      let p := loadPreferences s.rows
      some (s.setReader r (if ok then (if gen = "" then .returned p else .filling gen p) else .failed))
    | _ => none
  | .fill r =>
    match s.readers r with
    | .filling gen p => some ((s.setEntry (fillEntry codec s.entry gen p)).setReader r (.returned p))
    | _ => none
  | .begin w global types pinTypes =>
    match s.writers w, s.lock with
    | .idle, none =>
      some ({ s with lock := some w }.setWriter w (.writing (updatePreferences s.rows global types pinTypes)))
    | _, _ => none
  | .commit w result =>
    match s.writers w with
    | .writing rows =>
      let s := { s with lock := none }
      match result with
      | .ok => some ((s.commit rows).setWriter w (.committed s.history.length))
      | .lost => some ((s.commit rows).setWriter w .failed)
      | .rolledBack => some (s.setWriter w .failed)
    | _ => none
  | .invalidate w gen =>
    match s.writers w with
    | .committed n =>
      if hasCache then
        if gen ≠ "" ∧ gen ∉ s.used then
          some (((s.newGen gen).setEntry (compareAndSetHash s.entry false false "" "" gen).1).setWriter w (.returned n))
        else none
      else some (s.setWriter w (.returned n))
    | _ => none
  | .expire => some (s.setEntry none)

end

variable (entry : Option Hash)

/-- The guarded script leaves the entry, or writes under the generation that is there. -/
theorem compareAndSetHash_guarded (gen data : String) : (compareAndSetHash entry true true gen data gen).1 = entry ∨
      (∃ h, entry = some h ∧ h.gen = gen) ∧ (compareAndSetHash entry true true gen data gen).1 = some ⟨gen, data⟩ := by
  unfold compareAndSetHash
  cases entry with
  | none => exact .inl rfl
  | some h =>
    by_cases hgen : h.gen = gen
    · refine .inr ⟨⟨h, rfl, hgen⟩, ?_⟩
      simp [hgen]
    · refine .inl ?_
      simp [hgen]

/-! ## Which preferences a call may still return -/

/-- An update has returned successfully, and its commit was the `k`-th. -/
def State.Returned (s : State) (k : Nat) : Prop := ∃ w, s.writers w = .returned k

/-- `p` is what the rows said after the commit `k` or a later one. -/
def State.NotOlder (s : State) (k : Nat) (p : Preferences) : Prop :=
  ∃ n rows, k ≤ n ∧ s.history[n]? = some rows ∧ loadPreferences rows = p

/-- `p` is not older than any update that has returned. -/
def State.Fresh (s : State) (p : Preferences) : Prop :=
  ∃ n rows, (∀ k, s.Returned k → k ≤ n) ∧ s.history[n]? = some rows ∧ loadPreferences rows = p

/-- History only grows, and the later state has no update returned that the earlier one had not. -/
structure Keeps (s t : State) : Prop where
  history : s.history <+: t.history
  returned : ∀ k, t.Returned k → s.Returned k

theorem getElem?_mono {l m : List Rows} (h : l <+: m) {n : Nat} {rows : Rows} (hn : l[n]? = some rows) :
    m[n]? = some rows := by
  obtain ⟨more, rfl⟩ := h
  obtain ⟨hlt, -⟩ := List.getElem?_eq_some_iff.mp hn
  rw [getElem?_append_left hlt, hn]

variable {s t : State} {p : Preferences} {k : Nat}

theorem State.NotOlder.mono (h : s.NotOlder k p) (hst : s.history <+: t.history) : t.NotOlder k p := by
  obtain ⟨n, rows, hn, hrows, hp⟩ := h
  exact ⟨n, rows, hn, getElem?_mono hst hrows, hp⟩

theorem State.Fresh.of_keeps (h : s.Fresh p) (hst : Keeps s t) : t.Fresh p := by
  obtain ⟨n, rows, hn, hrows, hp⟩ := h
  exact ⟨n, rows, fun k hk => hn k (hst.returned k hk), getElem?_mono hst.history hrows, hp⟩

theorem State.Fresh.notOlder (h : s.Fresh p) (hk : s.Returned k) : s.NotOlder k p := by
  obtain ⟨n, rows, hn, hrows, hp⟩ := h
  exact ⟨n, rows, hn k hk, hrows, hp⟩

/-! ## The invariant -/

/-- The generation a reader goes on with. -/
def Reader.gen : Reader → String
  | .loading gen => gen
  | .filling gen _ => gen
  | _ => ""

/-- The number of a writer's commit. -/
def Writer.number : Writer → Option Nat
  | .committed n => some n
  | .returned n => some n
  | _ => none

/-- What is cached, and what a fill will still be accepted with, is no older than the updates that have returned. -/
structure Inv (hasCache : Bool) (codec : Codec) (s : State) : Prop where
  entry_used : ∀ h, s.entry = some h → h.gen ∈ s.used
  reader_used : ∀ r, (s.readers r).gen = "" ∨ (s.readers r).gen ∈ s.used
  number_lt : ∀ w n, (s.writers w).number = some n → n < s.history.length
  entry_fresh : ∀ h, s.entry = some h → h.data ≠ "" → ∃ p, codec.unmarshal h.data = some p ∧ s.Fresh p
  /-- So is what a reader is about to cache, as long as its generation is there. -/
  filling_fresh : ∀ r gen p h, s.readers r = .filling gen p → s.entry = some h → h.gen = gen → s.Fresh p
  no_cache : hasCache = false → s.entry = none ∧ ∀ r, s.readers r ≠ .noGen

variable {hasCache : Bool} {codec : Codec}

theorem Inv.init (rows : Rows) : Inv hasCache codec (State.init rows) where
  entry_used := by intro h hh; cases hh
  reader_used := fun _ => .inl rfl
  number_lt := by intro w n hn; cases hn
  entry_fresh := by intro h hh; cases hh
  filling_fresh := by intro r gen p h hr; cases hr
  no_cache := fun _ => ⟨rfl, fun _ => Reader.noConfusion⟩

variable {r : Nat}

theorem setReader_of_ne (s : State) {r' : Nat} (pc : Reader) (h : r' ≠ r) :
    (s.setReader r pc).readers r' = s.readers r' := Function.update_of_ne h ..

@[simp] theorem setReader_self (s : State) (r : Nat) (pc : Reader) : (s.setReader r pc).readers r = pc :=
  Function.update_self ..

theorem setWriter_of_ne (s : State) {w w' : Nat} (pc : Writer) (h : w' ≠ w) :
    (s.setWriter w pc).writers w' = s.writers w' := Function.update_of_ne h ..

@[simp] theorem setWriter_self (s : State) (w : Nat) (pc : Writer) : (s.setWriter w pc).writers w = pc :=
  Function.update_self ..

section

variable (hs : Inv hasCache codec s)

include hs

/-- The current rows are fresh: all commits that have been counted are at or before them. -/
theorem Inv.load_fresh : s.Fresh (loadPreferences s.rows) := by
  refine ⟨s.older.length, s.rows, ?_, by simp [State.history], rfl⟩
  rintro k ⟨w, hw⟩
  have hk := hs.number_lt w k (by rw [hw]; rfl)
  simp only [State.history, length_append, length_singleton] at hk
  omega

/-- A reader moves on, with a generation that has been given, and if it is to fill the cache, with fresh preferences. -/
theorem Inv.setReader (r : Nat) {pc : Reader} (hgen : pc.gen = "" ∨ pc.gen ∈ s.used)
    (hfill : ∀ gen p, pc = .filling gen p → s.Fresh p) (hcache : hasCache = false → pc ≠ .noGen) :
    Inv hasCache codec (s.setReader r pc) where
  entry_used := hs.entry_used
  reader_used := by
    intro r'
    by_cases h : r' = r
    · subst h
      rw [setReader_self]
      exact hgen
    · rw [setReader_of_ne s pc h]
      exact hs.reader_used r'
  number_lt := hs.number_lt
  entry_fresh := hs.entry_fresh
  filling_fresh := by
    intro r' gen p h hr' hentry hh
    by_cases hr : r' = r
    · subst hr
      rw [setReader_self] at hr'
      exact hfill gen p hr'
    · rw [setReader_of_ne s pc hr] at hr'
      exact hs.filling_fresh r' gen p h hr' hentry hh
  no_cache := by
    intro h
    refine ⟨(hs.no_cache h).1, ?_⟩
    intro r'
    by_cases hr : r' = r
    · subst hr
      rw [setReader_self]
      exact hcache h
    · rw [setReader_of_ne s pc hr]
      exact (hs.no_cache h).2 r'

/-- The cache and its readers are as they were. -/
theorem Inv.of_keeps (hkeeps : Keeps s t) (hentry : t.entry = s.entry) (hused : t.used = s.used)
    (hreaders : t.readers = s.readers) (hnumber : ∀ w n, (t.writers w).number = some n → n < t.history.length) :
    Inv hasCache codec t := by
  constructor
  case number_lt => exact hnumber
  all_goals simp only [hentry, hused, hreaders]
  case entry_used => exact hs.entry_used
  case reader_used => exact hs.reader_used
  case entry_fresh =>
    intro h hh hdata
    obtain ⟨p, hp, hfresh⟩ := hs.entry_fresh h hh hdata
    exact ⟨p, hp, hfresh.of_keeps hkeeps⟩
  case filling_fresh =>
    intro r gen p h hr hh hgen
    exact (hs.filling_fresh r gen p h hr hh hgen).of_keeps hkeeps
  case no_cache => exact hs.no_cache

/-- A writer moves on without having returned. -/
theorem Inv.setWriter (w : Nat) {pc : Writer} (hnumber : ∀ n, pc.number = some n → n < s.history.length)
    (hnot : ∀ n, pc ≠ .returned n) : Inv hasCache codec (s.setWriter w pc) := by
  have hkeeps : Keeps s (s.setWriter w pc) := by
    refine ⟨prefix_refl _, ?_⟩
    rintro k ⟨w', hw'⟩
    by_cases h : w' = w
    · subst h
      rw [setWriter_self] at hw'
      exact absurd hw' (hnot k)
    · exact ⟨w', (setWriter_of_ne s pc h).symm.trans hw'⟩
  refine hs.of_keeps hkeeps rfl rfl rfl fun w' n hn => ?_
  by_cases h : w' = w
  · subst h
    rw [setWriter_self] at hn
    exact hnumber n hn
  · rw [setWriter_of_ne s pc h] at hn
    exact hs.number_lt w' n hn

theorem Inv.commit (rows : Rows) : Inv hasCache codec (s.commit rows) := by
  have hkeeps : Keeps s (s.commit rows) := ⟨prefix_append _ _, fun _ hk => hk⟩
  exact hs.of_keeps hkeeps rfl rfl rfl fun w n hn => Nat.lt_of_lt_of_le (hs.number_lt w n hn) hkeeps.history.length_le

theorem Inv.expire : Inv hasCache codec (s.setEntry none) where
  entry_used := by intro h hh; cases hh
  reader_used := hs.reader_used
  number_lt := hs.number_lt
  entry_fresh := by intro h hh; cases hh
  filling_fresh := by intro r gen p h _ hh; cases hh
  no_cache := fun h => ⟨rfl, (hs.no_cache h).2⟩

/-- The state once a fresh generation is in the cache. Nothing is cached under it and no reader has it, so updates may
return now: this is why a writer invalidates last. -/
theorem Inv.newGen {gen : String} (hgen : gen ∉ s.used) (hne : gen ≠ "") (hcache : hasCache = true)
    (hentry : t.entry = some ⟨gen, ""⟩) (hused : t.used = gen :: s.used) (hreaders : t.readers = s.readers)
    (hnumber : ∀ w n, (t.writers w).number = some n → n < t.history.length) : Inv hasCache codec t where
  entry_used := by
    intro h hh
    rw [hentry] at hh
    cases hh
    rw [hused]
    exact mem_cons_self
  reader_used := by
    intro r
    rw [hreaders, hused]
    exact (hs.reader_used r).imp id (mem_cons_of_mem _)
  number_lt := hnumber
  entry_fresh := by
    intro h hh hdata
    rw [hentry] at hh
    cases hh
    exact absurd rfl hdata
  filling_fresh := by
    intro r gen' p h hr hh hgen'
    rw [hentry] at hh
    cases hh
    rw [hreaders] at hr
    -- the generation of a reader has been given before
    have hold := hs.reader_used r
    rw [hr] at hold
    subst hgen'
    exact absurd hold (not_or.mpr ⟨hne, hgen⟩)
  no_cache := by
    intro h
    rw [hcache] at h
    cases h

/-- A reader puts what it has loaded into the cache. -/
theorem Inv.fill {gen : String} (hr : s.readers r = .filling gen p) :
    Inv hasCache codec (s.setEntry (fillEntry codec s.entry gen p)) := by
  unfold fillEntry
  cases hdata : codec.marshal p with
  | none => exact hs
  | some data =>
    rcases compareAndSetHash_guarded s.entry gen data with heq | ⟨⟨h, hh, hgen⟩, heq⟩
    · dsimp only
      rw [heq]
      exact hs
    dsimp only
    rw [heq]
    obtain ⟨-, hback⟩ := codec.unmarshal_marshal p data hdata
    constructor
    case entry_used =>
      intro h' hh'
      cases hh'
      rw [← hgen]
      exact hs.entry_used h hh
    case reader_used => exact hs.reader_used
    case number_lt => exact hs.number_lt
    case entry_fresh =>
      intro h' hh' _
      cases hh'
      exact ⟨p, hback, hs.filling_fresh r gen p h hr hh hgen⟩
    case filling_fresh =>
      intro r' gen' p' h' hr' hh' hgen'
      cases hh'
      exact hs.filling_fresh r' gen' p' h hr' hh (hgen.trans hgen')
    case no_cache =>
      intro hno
      rw [(hs.no_cache hno).1] at hh
      cases hh

/-- A reader goes on from the hash with its generation, or with nothing to fill. -/
theorem Inv.afterGetHash_gen : (afterGetHash codec s.entry).gen = "" ∨ (afterGetHash codec s.entry).gen ∈ s.used := by
  unfold afterGetHash
  split
  · exact .inl rfl
  rename_i h hh
  split
  · exact .inl rfl
  split
  · exact .inl rfl
  · exact .inr (hs.entry_used h hh)

end

theorem afterGetHash_ne_filling (gen : String) (p : Preferences) : afterGetHash codec entry ≠ .filling gen p := by
  unfold afterGetHash
  split
  · exact Reader.noConfusion
  split
  · exact Reader.noConfusion
  · split <;> exact Reader.noConfusion

/-- A hit returns what the entry holds. -/
theorem Inv.afterGetHash_fresh (hs : Inv hasCache codec s)
    (h : afterGetHash codec s.entry = .returned p) : s.Fresh p := by
  unfold afterGetHash at h
  split at h
  · cases h
  rename_i hash hentry
  split at h
  · rename_i p' hp'
    cases h
    by_cases hdata : hash.data = ""
    · rw [if_pos hdata] at hp'
      cases hp'
    rw [if_neg hdata] at hp'
    obtain ⟨q, hq, hfresh⟩ := hs.entry_fresh hash hentry hdata
    rw [hq] at hp'
    cases hp'
    exact hfresh
  · split at h <;> cases h

theorem Inv.step (hs : Inv hasCache codec s) {e : Event} (h : step hasCache codec s e = some t) :
    Inv hasCache codec t := by
  cases e with
  | getHash r =>
    rw [Notifications.step] at h
    split at h <;> cases h
    refine hs.setReader r ?_ ?_ ?_
    · split
      · exact hs.afterGetHash_gen
      · exact .inl rfl
    · intro gen p hpc
      split at hpc
      · exact absurd hpc (afterGetHash_ne_filling s.entry gen p)
      · cases hpc
    · rintro rfl
      exact Reader.noConfusion
  | startGen r gen =>
    rw [Notifications.step] at h
    split at h
    · rename_i hr
      split at h <;> cases h
      rename_i hgen
      have hcache : hasCache = true := by
        by_contra hno
        exact (hs.no_cache (by simpa using hno)).2 r hr
      have hnew : Inv hasCache codec ((s.newGen gen).setEntry (some ⟨gen, ""⟩)) :=
        hs.newGen hgen.2 hgen.1 hcache rfl rfl rfl hs.number_lt
      refine hnew.setReader r ?_ ?_ ?_
      · exact .inr mem_cons_self
      · intro gen' p hpc
        cases hpc
      · exact fun _ => Reader.noConfusion
    · cases h
  | load r ok =>
    rw [Notifications.step] at h
    split at h <;> cases h
    rename_i gen hr
    have hused := hs.reader_used r
    rw [hr] at hused
    refine hs.setReader r ?_ ?_ ?_
    · split
      · split
        · exact .inl rfl
        · exact hused
      · exact .inl rfl
    · intro gen' p hpc
      split at hpc
      · split at hpc
        · cases hpc
        · cases hpc
          exact hs.load_fresh
      · cases hpc
    · intro _
      split
      · split <;> exact Reader.noConfusion
      · exact Reader.noConfusion
  | fill r =>
    rw [Notifications.step] at h
    split at h <;> cases h
    rename_i gen p hr
    exact (hs.fill hr).setReader r (.inl rfl) (by intro _ _ hpc; cases hpc) fun _ => Reader.noConfusion
  | begin w global types pinTypes =>
    rw [Notifications.step] at h
    split at h <;> cases h
    have hlock : Inv hasCache codec { s with lock := some w } := ⟨hs.1, hs.2, hs.3, hs.4, hs.5, hs.6⟩
    exact hlock.setWriter w (by intro n hn; cases hn) fun _ => Writer.noConfusion
  | commit w result =>
    rw [Notifications.step] at h
    split at h
    · rename_i rows hw
      have hlock : Inv hasCache codec { s with lock := none } := ⟨hs.1, hs.2, hs.3, hs.4, hs.5, hs.6⟩
      cases result with
      | ok =>
        cases h
        refine (hlock.commit rows).setWriter w ?_ fun _ => Writer.noConfusion
        intro n hn
        cases hn
        simp [State.commit, State.history]
      | lost =>
        cases h
        exact (hlock.commit rows).setWriter w (by intro n hn; cases hn) fun _ => Writer.noConfusion
      | rolledBack =>
        cases h
        exact hlock.setWriter w (by intro n hn; cases hn) fun _ => Writer.noConfusion
    · cases h
  | invalidate w gen =>
    rw [Notifications.step] at h
    split at h
    · rename_i n hw
      have hn : n < s.history.length := hs.number_lt w n (by rw [hw]; rfl)
      have hnumber : ∀ w' k, ((s.setWriter w (.returned n)).writers w').number = some k → k < s.history.length := by
        intro w' k hk
        by_cases hw' : w' = w
        · subst hw'
          rw [setWriter_self] at hk
          cases hk
          exact hn
        · rw [setWriter_of_ne s _ hw'] at hk
          exact hs.number_lt w' k hk
      split at h
      · split at h
        · rename_i hcache hgen
          cases h
          exact hs.newGen hgen.2 hgen.1 hcache rfl rfl rfl hnumber
        · cases h
      · rename_i hcache
        cases h
        -- without a cache nothing is stored that could be old
        have hno : hasCache = false := by simpa using hcache
        have hentry : s.entry = none := (hs.no_cache hno).1
        constructor
        case entry_used => exact hs.entry_used
        case reader_used => exact hs.reader_used
        case number_lt => exact hnumber
        case entry_fresh =>
          intro h' hh'
          exact absurd (hentry.symm.trans hh') (by simp)
        case filling_fresh =>
          intro r gen' p h' _ hh'
          exact absurd (hentry.symm.trans hh') (by simp)
        case no_cache => exact hs.no_cache
    · cases h
  | expire =>
    cases h
    exact hs.expire

/-! ## A call that starts after an update has returned -/

/-- The update `k` has returned, and what the call `r` holds or has returned is not older. -/
structure Later (k r : Nat) (s : State) : Prop where
  returned : s.Returned k
  filling : ∀ gen p, s.readers r = .filling gen p → s.NotOlder k p
  result : ∀ p, s.readers r = .returned p → s.NotOlder k p

theorem Later.setReader (hs : Later k r s) (r' : Nat) {pc : Reader}
    (hfill : r = r' → ∀ gen p, pc = .filling gen p → s.NotOlder k p)
    (hres : r = r' → ∀ p, pc = .returned p → s.NotOlder k p) : Later k r (s.setReader r' pc) := by
  refine ⟨hs.returned, ?_, ?_⟩
  · intro gen p hp
    by_cases h : r = r'
    · subst h
      rw [setReader_self] at hp
      exact hfill rfl gen p hp
    · rw [setReader_of_ne s pc h] at hp
      exact hs.filling gen p hp
  · intro p hp
    by_cases h : r = r'
    · subst h
      rw [setReader_self] at hp
      exact hres rfl p hp
    · rw [setReader_of_ne s pc h] at hp
      exact hs.result p hp

/-- Whatever leaves the readers alone, adds to the history and lets no update un-return. -/
theorem Later.of_readers (hs : Later k r s) (hreaders : t.readers = s.readers)
    (hhistory : s.history <+: t.history) (hreturned : t.Returned k) : Later k r t := by
  refine ⟨hreturned, ?_, ?_⟩
  · intro gen p hp
    rw [hreaders] at hp
    exact (hs.filling gen p hp).mono hhistory
  intro p hp
  rw [hreaders] at hp
  exact (hs.result p hp).mono hhistory

/-- A writer that has not returned may move. -/
theorem State.Returned.setWriter {w : Nat} (hs : s.Returned k) (pc : Writer)
    (hw : ∀ n, s.writers w ≠ .returned n) : (s.setWriter w pc).Returned k := by
  obtain ⟨w', hw'⟩ := hs
  refine ⟨w', ?_⟩
  have hne : w' ≠ w := by
    rintro rfl
    exact hw k hw'
  rw [setWriter_of_ne s pc hne, hw']

theorem Later.step (hs : Later k r s) (hinv : Inv hasCache codec s) {e : Event}
    (h : Notifications.step hasCache codec s e = some t) : Later k r t := by
  cases e with
  | getHash r' =>
    rw [Notifications.step] at h
    split at h <;> cases h
    refine hs.setReader r' ?_ ?_
    · intro _ gen p hpc
      split at hpc
      · exact absurd hpc (afterGetHash_ne_filling s.entry gen p)
      · cases hpc
    intro _ p hpc
    split at hpc
    · -- a hit: the entry is as new as every update that has returned
      exact (hinv.afterGetHash_fresh hpc).notOlder hs.returned
    · cases hpc
  | startGen r' gen =>
    rw [Notifications.step] at h
    split at h
    · split at h
      · cases h
        have hnew := hs.of_readers (t := (s.newGen gen).setEntry (compareAndSetHash s.entry false false "" "" gen).1)
          rfl (prefix_refl _) hs.returned
        exact hnew.setReader r' (by intro _ _ _ hpc; cases hpc) (by intro _ _ hpc; cases hpc)
      · cases h
    · cases h
  | load r' ok =>
    rw [Notifications.step] at h
    split at h <;> cases h
    -- a miss reads the current rows
    have hload := hinv.load_fresh.notOlder hs.returned
    refine hs.setReader r' ?_ ?_
    · intro _ gen' p hpc
      split at hpc
      · split at hpc
        · cases hpc
        · cases hpc
          exact hload
      · cases hpc
    · intro _ p hpc
      split at hpc
      · split at hpc
        · cases hpc
          exact hload
        · cases hpc
      · cases hpc
  | fill r' =>
    rw [Notifications.step] at h
    split at h <;> cases h
    rename_i gen p hr'
    have hnew := hs.of_readers (t := s.setEntry (fillEntry codec s.entry gen p)) rfl (prefix_refl _) hs.returned
    refine hnew.setReader r' (by intro _ _ _ hpc; cases hpc) ?_
    rintro rfl q hq
    cases hq
    -- the reader answers with what it loaded, whether or not the fill was accepted
    exact hs.filling gen p hr'
  | begin w global types pinTypes =>
    rw [Notifications.step] at h
    split at h <;> cases h
    rename_i hw _
    have hlock : State.Returned { s with lock := some w } k := hs.returned
    exact hs.of_readers rfl (prefix_refl _) (hlock.setWriter _ (by intro n hn; rw [hw] at hn; cases hn))
  | commit w result =>
    rw [Notifications.step] at h
    split at h
    · rename_i rows hw
      have hnot : ∀ n, s.writers w ≠ .returned n := by
        intro n hn
        rw [hw] at hn
        cases hn
      have hlock : State.Returned { s with lock := none } k := hs.returned
      have hcommit : (State.commit { s with lock := none } rows).Returned k := hs.returned
      cases result with
      | ok | lost =>
        cases h
        exact hs.of_readers rfl (prefix_append _ _) (hcommit.setWriter _ hnot)
      | rolledBack =>
        cases h
        exact hs.of_readers rfl (prefix_refl _) (hlock.setWriter _ hnot)
    · cases h
  | invalidate w gen =>
    rw [Notifications.step] at h
    split at h
    · rename_i n hw
      have hnot : ∀ n, s.writers w ≠ .returned n := by
        intro n hn
        rw [hw] at hn
        cases hn
      have hret := hs.returned.setWriter (.returned n) hnot
      split at h
      · split at h
        · cases h
          exact hs.of_readers rfl (prefix_refl _) hret
        · cases h
      · cases h
        exact hs.of_readers rfl (prefix_refl _) hret
    · cases h
  | expire =>
    cases h
    exact hs.of_readers rfl (prefix_refl _) hs.returned

/-- **No call that starts after an update has returned gives older preferences**: it returns what the rows said after
the commit of the update or a later one. -/
theorem preferences_not_older (hasCache : Bool) (codec : Codec) (rows : Rows) (before after : List Event)
    {s t : State} (hs : run (step hasCache codec) (State.init rows) before = some s)
    (ht : run (step hasCache codec) s after = some t) {w k : Nat} (hw : s.writers w = .returned k) {r : Nat}
    (hr : s.readers r = .idle) {p : Preferences} (hp : t.readers r = .returned p) : t.NotOlder k p := by
  have hinv : Inv hasCache codec s :=
    run_keeps (Inv hasCache codec) (fun _ _ _ hi hstep => hi.step hstep) (Inv.init rows) hs
  have hlater : Later k r s := by
    refine ⟨⟨w, hw⟩, ?_, ?_⟩
    · intro gen q hq
      rw [hr] at hq
      cases hq
    intro q hq
    rw [hr] at hq
    cases hq
  have hend : Inv hasCache codec t ∧ Later k r t :=
    run_keeps (fun u => Inv hasCache codec u ∧ Later k r u)
      (fun _ _ _ hi hstep => ⟨hi.1.step hstep, hi.2.step hi.1 hstep⟩) ⟨hinv, hlater⟩ ht
  exact hend.2.result p hp

/-- The global channels as three digits; preferences for single types are not written. -/
def channelCodec : Codec where
  marshal p :=
    if p.types = [] then
      some (String.ofList ([p.global.email, p.global.sms, p.global.push].map fun b => if b then '1' else '0'))
    else none
  unmarshal data :=
    match data.toList.map (· == '1') with
    | [email, sms, push] => some ⟨⟨email, sms, push⟩, []⟩
    | _ => none
  unmarshal_marshal := by
    rintro ⟨⟨email, sms, push⟩, types⟩ data h
    split at h
    · rename_i htypes
      obtain rfl : types = [] := htypes
      cases Option.some.inj h
      cases email <;> cases sms <;> cases push <;> exact ⟨by decide, by decide⟩
    · cases h

/-- A reader that loaded before an update tries to fill after it; the next call fills the cache. -/
def lateFill : List Event :=
  [.getHash 0, .startGen 0 "g", .load 0 true, .begin 1 (some ⟨some false, none, none⟩) [] false, .commit 1 .ok,
    .invalidate 1 "h", .fill 0]

def nextCall : List Event := [.getHash 2, .load 2 true, .fill 2]

theorem preferences_not_older_late_fill :
    ∃ s t, run (step true channelCodec) (State.init Table.empty) lateFill = some s ∧
      run (step true channelCodec) s nextCall = some t ∧ t.entry = some ⟨"h", "001"⟩ ∧
      s.writers 1 = .returned 1 ∧ s.readers 2 = .idle ∧ t.readers 2 = .returned ⟨⟨false, false, true⟩, []⟩ ∧
      t.NotOlder 1 ⟨⟨false, false, true⟩, []⟩ := by
  refine ⟨_, _, rfl, rfl, by decide, rfl, rfl, rfl, ?_⟩
  exact preferences_not_older true channelCodec Table.empty lateFill nextCall (w := 1) (r := 2) rfl rfl rfl rfl rfl

end GoErp.Notifications
