import Mathlib.Data.List.Nodup
import GoErp.Db.Batch

/-!
# `Db.AuditPairing` — the entries of an audited statement

`pairAuditEntries` (`wasm/host_db_exec_audit.go`) pairs the rows before a statement with those after it: first by
primary key, then by position. For lists of rows with distinct keys the loop over the old rows is a filter by whether
a new row has the key (`pairOld_eq`), and the entries are a partition of both lists (`pairAuditEntries_partitions`).
-/

namespace GoErp.Db

open List

variable {pkCol : String} {oldRows newRows : List Row}

/-- The primary keys of rows. -/
def keys (pkCol : String) (rows : List Row) : List GoValue := rows.map fun row => row.get pkCol

/-- What the entries of two lists of rows are to be. -/
structure Partitions (pkCol : String) (oldRows newRows : List Row) (entries : List AuditEntry) : Prop where
  old : (entries.filterMap AuditEntry.oldData).Perm oldRows
  new : (entries.filterMap AuditEntry.newData).Perm newRows
  /-- rows with the same key are in the same entry -/
  paired : ∀ o ∈ oldRows, ∀ n ∈ newRows, o.get pkCol = n.get pkCol →
    ∃ e ∈ entries, e.oldData = some o ∧ e.newData = some n
  count : entries.length = (newRows.filter fun n => n.get pkCol ∈ keys pkCol oldRows).length +
    max (oldRows.filter fun o => o.get pkCol ∉ keys pkCol newRows).length
      (newRows.filter fun n => n.get pkCol ∉ keys pkCol oldRows).length
  recordID : ∀ e ∈ entries, (∀ n, e.newData = some n → e.recordID = n.get pkCol) ∧
    (e.newData = none → ∃ o, e.oldData = some o ∧ e.recordID = o.get pkCol)

/-! ## The map of the new rows -/

/-- Among distinct keys the map has the row of a key. -/
theorem rowByPK_eq_some (hnew : (keys pkCol newRows).Nodup) {k : GoValue} {n : Row} :
    rowByPK pkCol newRows k = some n ↔ n ∈ newRows ∧ n.get pkCol = k := by
  constructor
  · intro h
    exact ⟨mem_reverse.mp (mem_of_find?_eq_some h), by simpa using find?_some h⟩
  rintro ⟨hn, rfl⟩
  cases h : rowByPK pkCol newRows (n.get pkCol) with
  | none => exact absurd (find?_eq_none.mp h n (mem_reverse.mpr hn)) (by simp)
  | some m =>
    have hm := mem_reverse.mp (mem_of_find?_eq_some h)
    have hkey : m.get pkCol = n.get pkCol := by simpa using find?_some h
    rw [inj_on_of_nodup_map hnew hm hn hkey]

theorem rowByPK_isSome {k : GoValue} : (rowByPK pkCol newRows k).isSome = true ↔ k ∈ keys pkCol newRows := by
  simp [rowByPK, keys]

/-! ## The loop over the old rows -/

/-- With distinct keys none is consumed before its turn. -/
theorem pairOld_eq (newRows : List Row) {consumed : List GoValue} (hold : (keys pkCol oldRows).Nodup)
    (hfresh : ∀ o ∈ oldRows, o.get pkCol ∉ consumed) : (pairOld pkCol newRows consumed oldRows).1 =
        oldRows.filterMap (fun o => (rowByPK pkCol newRows (o.get pkCol)).map fun n => (o, n)) ∧
      (pairOld pkCol newRows consumed oldRows).2.1 = oldRows.filter (fun o => o.get pkCol ∉ keys pkCol newRows) ∧
      ∀ k, k ∈ (pairOld pkCol newRows consumed oldRows).2.2 ↔
        k ∈ consumed ∨ k ∈ keys pkCol oldRows ∧ k ∈ keys pkCol newRows := by
  induction oldRows generalizing consumed with
  | nil => simp [pairOld, keys]
  | cons o os ih =>
    obtain ⟨ho, hos⟩ := nodup_cons.mp hold
    obtain ⟨hfresh, hrest⟩ := forall_mem_cons.mp hfresh
    have hkeys : keys pkCol (o :: os) = o.get pkCol :: keys pkCol os := rfl
    rw [pairOld]
    cases h : rowByPK pkCol newRows (o.get pkCol) with
    | some n =>
      have hmem : o.get pkCol ∈ keys pkCol newRows := rowByPK_isSome.mp (by rw [h]; rfl)
      have hrest' : ∀ o' ∈ os, o'.get pkCol ∉ o.get pkCol :: consumed := fun o' ho' hin => by
        rcases mem_cons.mp hin with heq | hin
        · exact ho (mem_map.mpr ⟨o', ho', heq⟩)
        · exact hrest o' ho' hin
      obtain ⟨hpairs, hunpaired, hconsumed⟩ := ih hos hrest'
      dsimp only
      rw [if_neg hfresh]
      refine ⟨?_, ?_, fun k => ?_⟩
      · simp [h, hpairs]
      · simp [hmem, hunpaired]
      · grind
    | none =>
      have hmem : o.get pkCol ∉ keys pkCol newRows := fun hin => by
        rw [← rowByPK_isSome, h] at hin
        cases hin
      obtain ⟨hpairs, hunpaired, hconsumed⟩ := ih hos hrest
      refine ⟨?_, ?_, fun k => ?_⟩
      · simp [h, hpairs]
      · simp [hmem, hunpaired]
      · grind

theorem zipLongest_snd (olds news : List Row) : (zipLongest olds news).filterMap Prod.snd = news := by
  induction olds generalizing news with
  | nil => simp [zipLongest, filterMap_map]
  | cons o os ih => cases news <;> simp [zipLongest, ih]

theorem length_zipLongest (olds news : List Row) : (zipLongest olds news).length = max olds.length news.length := by
  induction olds generalizing news with
  | nil => simp [zipLongest]
  | cons o os ih => cases news <;> simp [zipLongest, ih]

theorem zipLongest_some {olds news : List Row} {x : Option Row × Option Row} (h : x ∈ zipLongest olds news) :
    x.2 = none → ∃ o, x.1 = some o := by
  induction olds generalizing news with
  | nil =>
    obtain ⟨n, -, rfl⟩ := mem_map.mp h
    exact nofun
  | cons o os ih =>
    cases news <;> rcases mem_cons.mp h with rfl | h
    · exact fun _ => ⟨o, rfl⟩
    · exact ih h
    · exact fun _ => ⟨o, rfl⟩
    · exact ih h

/-! ## The entries -/

/-- The pairs hold each new row whose key an old row has, once. -/
theorem paired_new_perm (hold : (keys pkCol oldRows).Nodup) (hnew : (keys pkCol newRows).Nodup) :
    (oldRows.filterMap fun o => rowByPK pkCol newRows (o.get pkCol)).Perm
      (newRows.filter fun n => n.get pkCol ∈ keys pkCol oldRows) := by
  have hnodup : (oldRows.filterMap fun o => rowByPK pkCol newRows (o.get pkCol)).Nodup := by
    refine List.Pairwise.filterMap _ (fun o o' hne n hn n' hn' heq => hne ?_) (pairwise_map.mp hold)
    rw [← ((rowByPK_eq_some hnew).mp hn).2, ← ((rowByPK_eq_some hnew).mp hn').2, heq]
  refine (perm_ext_iff_of_nodup hnodup (hnew.of_map.filter _)).mpr fun n => ?_
  simp only [mem_filterMap, mem_filter, decide_eq_true_eq, rowByPK_eq_some hnew, keys, mem_map]
  grind

/-- **The entries are a partition of the rows before and after.** -/
theorem pairAuditEntries_partitions (pkCol : String) (oldRows newRows : List Row) (hold : (keys pkCol oldRows).Nodup)
    (hnew : (keys pkCol newRows).Nodup) :
    Partitions pkCol oldRows newRows (pairAuditEntries pkCol oldRows newRows) := by
  obtain ⟨hpairs, hunpaired, hconsumed⟩ := pairOld_eq newRows hold fun o _ => not_mem_nil
  -- the new rows left over are those without an old row of their key
  have hleft : (newRows.filter fun n => n.get pkCol ∉ (pairOld pkCol newRows [] oldRows).2.2) =
      newRows.filter fun n => n.get pkCol ∉ keys pkCol oldRows := by
    refine filter_congr fun n hn => ?_
    have hkey : n.get pkCol ∈ keys pkCol newRows := mem_map.mpr ⟨n, hn, rfl⟩
    simp [hconsumed, hkey]
  have hsnd : (pairOld pkCol newRows [] oldRows).1.map Prod.snd =
      oldRows.filterMap fun o => rowByPK pkCol newRows (o.get pkCol) := by
    rw [hpairs, map_filterMap]
    simp [Function.comp_def]
  have hnews := paired_new_perm hold hnew
  refine ⟨pairAuditEntries_old pkCol oldRows newRows, ?_, ?_, ?_, ?_⟩
  · have hdata : (pairAuditEntries pkCol oldRows newRows).filterMap AuditEntry.newData =
        (pairOld pkCol newRows [] oldRows).1.map Prod.snd ++
          newRows.filter fun n => n.get pkCol ∉ (pairOld pkCol newRows [] oldRows).2.2 := by
      unfold pairAuditEntries
      simp only [filterMap_map, filterMap_append, Function.comp_def]
      rw [zipLongest_snd]
      simp [map_eq_flatMap, filterMap_eq_flatMap_toList]
    rw [hdata, hsnd, hleft]
    refine (hnews.append_right _).trans ?_
    simpa using filter_append_perm (fun n : Row => decide (n.get pkCol ∈ keys pkCol oldRows)) newRows
  · intro o ho n hn hkey
    have hpair : (o, n) ∈ (pairOld pkCol newRows [] oldRows).1 := by
      rw [hpairs, mem_filterMap]
      exact ⟨o, ho, by rw [(rowByPK_eq_some hnew).mpr ⟨hn, hkey.symm⟩]; rfl⟩
    refine ⟨⟨n.get pkCol, some o, some n⟩, mem_map.mpr ⟨(some o, some n), ?_, rfl⟩, rfl, rfl⟩
    exact mem_append_left _ (mem_map.mpr ⟨(o, n), hpair, rfl⟩)
  · unfold pairAuditEntries
    simp only [length_map, length_append, length_zipLongest, hunpaired, hleft]
    rw [← hnews.length_eq, ← hsnd, length_map]
  intro e he
  obtain ⟨x, hx, rfl⟩ := mem_map.mp he
  refine ⟨fun n hn => ?_, fun hnone => ?_⟩
  · dsimp only at hn ⊢
    rw [hn]
  -- an entry without new data comes from an old row
  have hsome : ∃ o, x.1 = some o := by
    rcases mem_append.mp hx with hx | hx
    · obtain ⟨y, -, rfl⟩ := mem_map.mp hx
      exact ⟨y.1, rfl⟩
    · exact zipLongest_some hx hnone
  obtain ⟨o, ho⟩ := hsome
  dsimp only at hnone ⊢
  exact ⟨o, ho, by rw [hnone, ho]; rfl⟩

/-- A row that kept its key, one that changed it, and one deleted. -/
theorem pairAuditEntries_partitions_contacts : let row (id : String) : Row := [("id", .str id)]
    ∃ entries, Partitions "id" [row "a", row "b", row "c"] [row "d", row "a"] entries ∧ entries.length = 3 :=
  ⟨_, pairAuditEntries_partitions "id" _ _ (by decide) (by decide), by decide⟩

end GoErp.Db
