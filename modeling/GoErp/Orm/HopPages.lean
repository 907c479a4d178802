import Mathlib.Data.List.Nodup
import GoErp.Lib.Arrangement
import GoErp.Lib.Except
import GoErp.Lib.Paging

/-!
# `Orm.HopPages` — the dependents of a record, page by page

`recomputeHopDependents` reads the rows that reference a record in pages after the last primary key it has seen, and
recomputes, stores and logs the rows of each page before it reads the next. What is left to do is a suffix of the
referencing keys in order, whatever the recomputation does to the other columns. So the whole loop is
`recomputePages` of a list of pages that has every referencing key once.
-/

namespace GoErp.Orm.HopPages

open Lib List

/-- A computed field over a foreign key: the columns of its table, what computes it, and what stores and logs it.
Setting it changes neither key of a row. -/
structure Dependent (ρ κ φ ν α ε : Type) where
  pk : ρ → κ
  fk : ρ → φ
  /-- `openComputeSession` -/
  openSession : List ρ → Except ε Unit
  /-- `session.invoke`, which may read the table -/
  invoke : List ρ → ρ → Except ε ν
  set : ρ → ν → ρ
  /-- Postgres accepts the rows of the `UPDATE` -/
  store : List ρ → Except ε Unit
  /-- `writeRecomputedActivity` of a row as it was read, against the table as it is now -/
  activity : List ρ → ρ → Except ε (List α)
  set_pk : ∀ r v, pk (set r v) = pk r
  set_fk : ∀ r v, fk (set r v) = fk r

/-- What the transaction sees of the dependents: their table, and the activity feed. -/
structure State (ρ α : Type) where
  rows : List ρ
  feed : List α
deriving DecidableEq

variable {ρ κ φ ν α ε : Type} [LinearOrder κ] [DecidableEq φ]

/-- `pk > $2`, if a page has been read. -/
def past (after : Option κ) (key : κ) : Bool := after.all (· < key)

/-- `SELECT * … WHERE fk = $1 AND pk > $2 ORDER BY pk LIMIT size`; deleted rows are read too. -/
def fkReferencingPage (d : Dependent ρ κ φ ν α ε) (rows : List ρ) (target : φ) (after : Option κ) (size : Nat) :
    List ρ :=
  (sortBy d.pk (rows.filter fun r => past after (d.pk r) && d.fk r = target)).take size

/-- The ids and the new values of a page. -/
def invokePage (d : Dependent ρ κ φ ν α ε) (rows page : List ρ) : Except ε (List (κ × ν)) :=
  page.mapM fun r => do
    let v ← d.invoke rows r
    .ok (d.pk r, v)

/-- `UPDATE … SET field = v.value FROM (VALUES …) v WHERE pk = v.id` -/
def applyComputedValues (d : Dependent ρ κ φ ν α ε) (values : List (κ × ν)) (rows : List ρ) : List ρ :=
  rows.map fun r =>
    match values.lookup (d.pk r) with
    | some v => d.set r v
    | none => r

/-- The session is opened for the first page only. -/
def ensureSession (d : Dependent ρ κ φ ν α ε) (session : Bool) (rows : List ρ) : Except ε Unit :=
  if session then .ok () else d.openSession rows

/-- What the loop does with a page that has rows: it opens the session if there is none yet, and computes all values
before one is stored. -/
def recomputePage (d : Dependent ρ κ φ ν α ε) (session : Bool) (s : State ρ α) (page : List ρ) :
    Except ε (State ρ α) := do
  ensureSession d session s.rows
  let values ← invokePage d s.rows page
  let rows := applyComputedValues d values s.rows
  d.store rows
  let entries ← page.mapM (d.activity rows)
  .ok ⟨rows, s.feed ++ entries.flatten⟩

/-- The loop, with whether the session is open; `none` if it runs out of fuel. -/
def recomputeHopDependents (d : Dependent ρ κ φ ν α ε) (target : φ) (size : Nat) :
    Nat → Bool → Option κ → State ρ α → Option (Except ε (State ρ α))
  | 0, _, _, _ => none
  | fuel + 1, session, after, s =>
    let page := fkReferencingPage d s.rows target after size
    if page.length = 0 then some (.ok s)
    else
      match recomputePage d session s page with
      | .error e => some (.error e)
      | .ok s =>
        if page.length < size then some (.ok s)
        else recomputeHopDependents d target size fuel true (page.getLast?.map d.pk) s

/-- The keys of the rows that reference the target. -/
def referencing (d : Dependent ρ κ φ ν α ε) (target : φ) (rows : List ρ) : List κ :=
  (rows.filter fun r => d.fk r = target).map d.pk

/-- The rows of the table that stand under the keys. -/
def rowsAt (d : Dependent ρ κ φ ν α ε) (rows : List ρ) (keys : List κ) : List ρ :=
  keys.filterMap fun key => rows.find? fun r => d.pk r = key

/-- Recomputation of the rows of some pages, one page after the other, up to the first failure. -/
def recomputePages (d : Dependent ρ κ φ ν α ε) (session : Bool) (s : State ρ α) : List (List κ) → Except ε (State ρ α)
  | [] => .ok s
  | page :: pages => do
    let s ← recomputePage d session s (rowsAt d s.rows page)
    recomputePages d true s pages

section

variable {d : Dependent ρ κ φ ν α ε} {rows : List ρ} {s s' : State ρ α} {target : φ} {after : Option κ} {size : Nat}

/-! ## What a page leaves alone -/

omit [DecidableEq φ] in
/-- The keys of the table stay as they are, in their places. -/
theorem keys_applyComputedValues (values : List (κ × ν)) (rows : List ρ) :
    (applyComputedValues d values rows).map (fun r => (d.pk r, d.fk r)) = rows.map fun r => (d.pk r, d.fk r) := by
  rw [applyComputedValues, List.map_map]
  apply map_congr_left
  intro r _
  dsimp only [Function.comp_apply]
  split
  · rw [d.set_pk, d.set_fk]
  · rfl

omit [DecidableEq φ] in
theorem keys_recomputePage {session : Bool} {page : List ρ} (h : recomputePage d session s page = .ok s') :
    s'.rows.map (fun r => (d.pk r, d.fk r)) = s.rows.map fun r => (d.pk r, d.fk r) := by
  obtain ⟨-, -, h⟩ := bind_eq_ok.mp h
  obtain ⟨values, -, h⟩ := bind_eq_ok.mp h
  obtain ⟨-, -, h⟩ := bind_eq_ok.mp h
  obtain ⟨entries, -, h⟩ := bind_eq_ok.mp h
  cases h
  exact keys_applyComputedValues values s.rows

omit [LinearOrder κ] in
theorem referencing_of_keys {rows' : List ρ}
    (h : rows'.map (fun r => (d.pk r, d.fk r)) = rows.map fun r => (d.pk r, d.fk r)) :
    referencing d target rows' = referencing d target rows := by
  have hkeys (l : List ρ) :
      referencing d target l = ((l.map fun r => (d.pk r, d.fk r)).filter fun k => k.2 = target).map Prod.fst := by
    rw [filter_map, List.map_map]
    rfl
  rw [hkeys, hkeys, h]

omit [LinearOrder κ] [DecidableEq φ] in
theorem pks_of_keys {rows' : List ρ}
    (h : rows'.map (fun r => (d.pk r, d.fk r)) = rows.map fun r => (d.pk r, d.fk r)) :
    rows'.map d.pk = rows.map d.pk := by
  simpa [List.map_map, Function.comp_def] using congrArg (List.map Prod.fst) h

/-! ## What a page reads -/

/-- The keys of a page are the next ones of the ordered keys. -/
theorem page_keys (d : Dependent ρ κ φ ν α ε) (target : φ) (after : Option κ) (size : Nat) (rows : List ρ) :
    (fkReferencingPage d rows target after size).map d.pk =
      ((sortBy id (referencing d target rows)).filter (past after)).take size := by
  rw [fkReferencingPage, map_take]
  congr 1
  have hpage : Arrangement id _ (List.map d.pk _) :=
    (arrangement_sortBy d.pk (rows.filter fun r => past after (d.pk r) && d.fk r = target)).map fun _ => rfl
  have hall := (arrangement_sortBy id (referencing d target rows)).filter (past after)
  apply hpage.unique (hall.of_perm _) fun _ _ _ _ hab => hab
  rw [referencing, filter_map, filter_filter]
  exact .rfl

variable (target after size) in
/-- With distinct keys the rows of a page are those under its keys. -/
theorem rowsAt_page (hpk : (rows.map d.pk).Nodup) :
    rowsAt d rows ((fkReferencingPage d rows target after size).map d.pk) =
      fkReferencingPage d rows target after size := by
  have hfind : ∀ r ∈ fkReferencingPage d rows target after size, rows.find? (fun r' => d.pk r' = d.pk r) = some r := by
    intro r hr
    have hmem : r ∈ rows :=
      mem_of_mem_filter ((arrangement_sortBy d.pk _).mem_iff.mp (mem_of_mem_take hr))
    obtain ⟨r', hr'⟩ := Option.isSome_iff_exists.mp 
      (find?_isSome (p := fun r' => d.pk r' = d.pk r).mpr ⟨r, hmem, decide_eq_true rfl⟩)
    have hkey : d.pk r' = d.pk r := by simpa using find?_some hr'
    rw [hr', inj_on_of_nodup_map hpk (mem_of_find?_eq_some hr') hmem hkey]
  rw [rowsAt, filterMap_map]
  exact (filterMap_congr hfind).trans filterMap_some

variable {l : List κ}

/-- The keys past one of an ordered list are those that come after it. -/
theorem filter_past (hl : l.Pairwise (· < ·)) (hafter : ∀ a ∈ after, a ∈ l) :
    l.filter (past after) = Paging.rest after l := by
  cases after with
  | none => exact List.filter_eq_self.mpr fun _ _ => rfl
  | some a =>
    obtain ⟨front, back, rfl⟩ := append_of_mem (hafter a rfl)
    obtain ⟨-, hback, hfront⟩ := pairwise_append.mp hl
    have hbefore (key : κ) (h : key ∈ front) : key < a := hfront key h a mem_cons_self
    have hbehind : back.filter (past (some a)) = back :=
      List.filter_eq_self.mpr fun key h => by simpa [past] using (pairwise_cons.mp hback).1 key h
    show _ = ((front ++ a :: back).dropWhile (· ≠ a)).tail
    rw [Paging.dropWhile_ne_append fun h => lt_irrefl a (hbefore a h), filter_append, filter_eq_nil_iff.mpr,
      nil_append, filter_cons_of_neg (by simp [past]), hbehind, tail_cons]
    intro key h
    simpa [past] using (hbefore key h).le

/-! ## The loop -/

/-- From a key on, the loop ends within as many pages as there are keys to do, and recomputes them in order.
The induction is on the fuel; the ordered list of all keys stays the same, and `after` is one of them. -/
theorem loop_eq (hsize : 0 < size) (hl : l.Pairwise (· < ·)) :
    ∀ (fuel : Nat) (session : Bool) (after : Option κ) (s : State ρ α), (∀ a ∈ after, a ∈ l) →
      (Paging.rest after l).length < fuel → sortBy id (referencing d target s.rows) = l → (s.rows.map d.pk).Nodup →
      ∃ pages : List (List κ), pages.flatten = Paging.rest after l ∧
        recomputeHopDependents d target size fuel session after s = some (recomputePages d session s pages)
  | 0, _, _, _, _, hfuel, _, _ => absurd hfuel (Nat.not_lt_zero _)
  | fuel + 1, session, after, s, hafter, hfuel, hrows, hpk => by
    have hkeys : (fkReferencingPage d s.rows target after size).map d.pk = Paging.page size after l := by
      rw [page_keys, hrows, filter_past hl hafter, Paging.page]
    have hpage := rowsAt_page target after size hpk
    rw [hkeys] at hpage
    have hlength := congrArg List.length hkeys
    rw [length_map] at hlength
    rw [recomputeHopDependents]
    split
    · rename_i hnone
      have hnil := length_eq_zero_iff.mp (hlength.symm.trans hnone)
      have hshort : (Paging.page size after l).length < size := by omega
      refine ⟨[], ?_, rfl⟩
      rw [Paging.rest_eq_page hshort, hnil]
      rfl
    rename_i hnone
    -- whatever the page does, the pages after it cover the rest of the keys
    by_cases hshort : (Paging.page size after l).length < size
    · refine ⟨[Paging.page size after l], ?_, ?_⟩
      · rw [Paging.rest_eq_page hshort, flatten_cons, flatten_nil, append_nil]
      rw [recomputePages, hpage]
      cases hdone : recomputePage d session s (fkReferencingPage d s.rows target after size) with
      | error e => rfl
      | ok s' => simp only [hlength, if_pos hshort, bind, Except.bind, recomputePages]
    obtain ⟨last, hlast⟩ : ∃ last, (Paging.page size after l).getLast? = some last := by
      apply Option.isSome_iff_exists.mp
      rw [getLast?_isSome, ← length_pos_iff]
      omega
    have hnext := Paging.rest_getLast (hl.imp ne_of_lt) hlast
    have hmem : last ∈ l := (Paging.rest_suffix after l).subset (mem_of_mem_take (mem_of_getLast? hlast))
    have hless := Paging.length_drop_lt hsize hshort
    rw [← hnext] at hless
    have hcover (pages : List (List κ)) (hpages : pages.flatten = Paging.rest (some last) l) :
        (Paging.page size after l :: pages).flatten = Paging.rest after l := by
      rw [flatten_cons, hpages, hnext, Paging.page, take_append_drop]
    have hrest (s' : State ρ α) (hrows' : sortBy id (referencing d target s'.rows) = l)
        (hpk' : (s'.rows.map d.pk).Nodup) := loop_eq hsize hl fuel true (some last) s'
          (by rintro _ ⟨⟩; exact hmem) (by omega) hrows' hpk'
    have hafter' : (fkReferencingPage d s.rows target after size).getLast?.map d.pk = some last := by
      rw [← getLast?_map, hkeys, hlast]
    cases hdone : recomputePage d session s (fkReferencingPage d s.rows target after size) with
    | error e =>
      obtain ⟨pages, hpages, -⟩ := hrest s hrows hpk
      refine ⟨_, hcover pages hpages, ?_⟩
      rw [recomputePages, hpage, hdone]
      rfl
    | ok s' =>
      have hsame := keys_recomputePage hdone
      obtain ⟨pages, hpages, hloop⟩ := hrest s' (by rw [referencing_of_keys hsame, hrows])
        (by rw [pks_of_keys hsame]; exact hpk)
      refine ⟨_, hcover pages hpages, ?_⟩
      rw [recomputePages, hpage, hdone]
      simp only [hlength, if_neg hshort, hafter', hloop]
      rfl

end

/-- **The pages cover every referencing row once**: the loop ends, and what it does is to recompute, page by page and
up to the first failure, the rows under a list of keys in which every row that references the target stands once. -/
theorem recomputeHopDependents_covers (d : Dependent ρ κ φ ν α ε) (target : φ) (size : Nat) (s : State ρ α)
    (hsize : 0 < size) (hpk : (s.rows.map d.pk).Nodup) :
    ∃ pages : List (List κ), pages.flatten.Perm (referencing d target s.rows) ∧ pages.flatten.Nodup ∧
      recomputeHopDependents d target size (s.rows.length + 1) false none s =
        some (recomputePages d false s pages) := by
  have harr := arrangement_sortBy id (referencing d target s.rows)
  have hnodup : (referencing d target s.rows).Nodup := hpk.sublist (filter_sublist.map d.pk)
  have hlt : (sortBy id (referencing d target s.rows)).Pairwise (· < ·) :=
    (harr.2.and (harr.1.nodup_iff.mpr hnodup)).imp fun h => lt_of_le_of_ne h.1 h.2
  have hfuel : (sortBy id (referencing d target s.rows)).length < s.rows.length + 1 := by
    rw [harr.1.length_eq, referencing, length_map]
    exact Nat.lt_succ_of_le (length_filter_le _ _)
  obtain ⟨pages, hpages, hloop⟩ := loop_eq hsize hlt _ false none s (by rintro _ ⟨⟩) hfuel rfl hpk
  have hall : pages.flatten = sortBy id (referencing d target s.rows) := hpages
  refine ⟨pages, ?_, ?_, hloop⟩
  · rw [hall]
    exact harr.1
  · rw [hall]
    exact harr.1.nodup_iff.mpr hnodup

/-- Rows of a key, whether they reference the record, and a total that the recomputation raises by ten. -/
def totals : Dependent (Nat × Bool × Nat) Nat Bool Nat Nat String where
  pk r := r.1
  fk r := r.2.1
  openSession _ := .ok ()
  invoke _ r := .ok (r.2.2 + 10)
  set r v := (r.1, r.2.1, v)
  store _ := .ok ()
  activity _ r := .ok [r.1]
  set_pk _ _ := rfl
  set_fk _ _ := rfl

def fourTotals : State (Nat × Bool × Nat) Nat := ⟨[(4, true, 0), (1, true, 1), (2, false, 2), (3, true, 3)], []⟩

/-- Three of four rows in pages of two: each total is raised once, and logged once, in the order of the keys. -/
theorem recomputeHopDependents_covers_three :
    recomputeHopDependents totals true 2 5 false none fourTotals =
        some (.ok ⟨[(4, true, 10), (1, true, 11), (2, false, 2), (3, true, 13)], [1, 3, 4]⟩) ∧
      ∃ pages : List (List Nat), pages.flatten.Perm [4, 1, 3] ∧ pages.flatten.Nodup ∧
        recomputeHopDependents totals true 2 5 false none fourTotals =
          some (recomputePages totals false fourTotals pages) :=
  ⟨by rfl, recomputeHopDependents_covers totals true 2 fourTotals (by decide) (by decide)⟩

end GoErp.Orm.HopPages
