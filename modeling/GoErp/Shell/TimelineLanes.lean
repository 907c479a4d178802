import Mathlib.Data.List.Nodup
import Mathlib.Data.List.Sort
import Mathlib.Order.Bounds.Basic

/-!
# `Shell.TimelineLanes` — the lanes of a timeline row

`assignLanes` (`renderers/timeline/timeline-layout.ts`) takes the bars in the order of their starts and puts each in
the first lane that is free. A lane is opened only while every lane there is has a bar at the new bar's start, so
there are as many lanes as bars at the busiest instant.
-/

namespace GoErp.Timeline

open List

/-- `localeCompare`, of which only that it is an order is used. -/
structure Collation where
  localeCompare : String → String → Int
  total : ∀ a b, localeCompare a b ≤ 0 ∨ localeCompare b a ≤ 0
  trans : ∀ a b c, localeCompare a b ≤ 0 → localeCompare b c ≤ 0 → localeCompare a c ≤ 0

/-- A bar, with `getTime` of its dates. The end is inclusive, and `clampBarRange` has put it at the start or later. -/
structure Bar where
  id : String
  start : Int
  stop : Int
  start_le_stop : start ≤ stop

def Bar.covers (b : Bar) (t : Int) : Prop := b.start ≤ t ∧ t ≤ b.stop
  deriving Decidable

/-- The comparator of the sort: by start, then by id. -/
def Collation.le (c : Collation) (a b : Bar) : Bool :=
  (if a.start - b.start ≠ 0 then a.start - b.start else c.localeCompare a.id b.id) ≤ 0

structure Lanes where
  laneEnds : List Int
  lanes : String → Option Nat

/-- One round of the loop. -/
def Lanes.place (s : Lanes) (bar : Bar) : Lanes :=
  let laneIndex := s.laneEnds.findIdx? (· < bar.start)
  let lane := laneIndex.getD s.laneEnds.length
  { laneEnds := if lane < s.laneEnds.length then s.laneEnds.set lane bar.stop else s.laneEnds ++ [bar.stop]
    lanes := Function.update s.lanes bar.id (some lane) }

def assignLanes (c : Collation) (bars : List Bar) : String → Option Nat :=
  ((bars.mergeSort c.le).foldl Lanes.place ⟨[], fun _ => none⟩).lanes

/-! ## The order of the rounds -/

theorem Collation.start_le {c : Collation} {a b : Bar} (h : c.le a b) : a.start ≤ b.start := by
  simp only [le, decide_eq_true_eq] at h
  split at h <;> omega

theorem Collation.sorted (c : Collation) (bars : List Bar) : (bars.mergeSort c.le).Pairwise (·.start ≤ ·.start) := by
  refine (pairwise_mergeSort (fun x y z hxy hyz => ?_) (fun x y => ?_) bars).imp start_le
  · have htrans := c.trans x.id y.id z.id
    simp only [le, decide_eq_true_eq] at hxy hyz ⊢
    split at hxy <;> split at hyz <;> split <;> omega
  · have htotal := c.total x.id y.id
    simp only [le, Bool.or_eq_true, decide_eq_true_eq]
    split <;> split <;> omega

/-! ## One round -/

/-- The bar's lane was free, and it is a new one only if every lane is taken at the bar's start. -/
theorem Lanes.place_spec (s : Lanes) (b : Bar) :
    ∃ lane, (s.place b).lanes = Function.update s.lanes b.id (some lane) ∧
      (∀ i, (s.place b).laneEnds[i]? = if i = lane then some b.stop else s.laneEnds[i]?) ∧
      (∀ e, s.laneEnds[lane]? = some e → e < b.start) ∧
      ((s.place b).laneEnds.length = s.laneEnds.length ∨
        (s.place b).laneEnds.length = s.laneEnds.length + 1 ∧ ∀ e ∈ s.laneEnds, b.start ≤ e) := by
  refine ⟨_, rfl, ?_⟩
  cases h : s.laneEnds.findIdx? (· < b.start) with
  | none =>
    have hends : (s.place b).laneEnds = s.laneEnds ++ [b.stop] := by simp [place, h]
    rw [hends]
    refine ⟨fun i => ?_, fun e he => ?_, .inr ⟨by simp, by simpa using h⟩⟩
    · simp only [Option.getD_none, getElem?_append, getElem?_singleton]
      grind
    · simp at he
  | some lane =>
    obtain ⟨hlt, hfree, -⟩ := findIdx?_eq_some_iff_getElem.mp h
    have hends : (s.place b).laneEnds = s.laneEnds.set lane b.stop := by simp [place, h, hlt]
    rw [hends]
    refine ⟨fun i => ?_, fun e he => ?_, .inl (by simp)⟩
    · simp only [Option.getD_some, getElem?_set]
      grind
    · simp only [Option.getD_some, getElem?_eq_getElem hlt, Option.some.injEq] at he
      simpa [he] using hfree

/-- The bars placed so far: in a lane no two of them meet, `laneEnds` has the last end of each lane, and at some instant
there are as many bars as lanes. -/
structure Packed (done : List Bar) (s : Lanes) : Prop where
  placed : ∀ a ∈ done, ∃ lane e, s.lanes a.id = some lane ∧ s.laneEnds[lane]? = some e ∧ a.stop ≤ e
  last : ∀ (lane : Nat) e, s.laneEnds[lane]? = some e → ∃ a ∈ done, s.lanes a.id = some lane ∧ a.stop = e
  apart : ∀ a ∈ done, ∀ b ∈ done, ∀ t, a.covers t → b.covers t → s.lanes a.id = s.lanes b.id → a = b
  full : ∃ t, s.laneEnds.length ≤ done.countP (·.covers t)

variable {done : List Bar} {s : Lanes} {b : Bar}

/-- Things with labels of their own are no more than those that carry all of these labels. -/
theorem length_le_of_labels {α β γ : Type} {l : List α} {l' : List β} {f : α → γ} {g : β → γ} (h : (l.map f).Nodup)
    (hsub : ∀ x ∈ l, ∃ y ∈ l', g y = f x) : l.length ≤ l'.length := by
  have hmap : l.map f ⊆ l'.map g := by
    intro z hz
    obtain ⟨x, hx, rfl⟩ := mem_map.mp hz
    exact mem_map.mpr (hsub x hx)
  simpa using (subperm_of_subset h hmap).length_le

/-- The bars at one instant are in different lanes. -/
theorem Packed.countP_le (h : Packed done s) (hnodup : done.Nodup) (t : Int) :
    done.countP (·.covers t) ≤ s.laneEnds.length := by
  rw [countP_eq_length_filter, ← length_range (n := s.laneEnds.length)]
  refine length_le_of_labels (f := (s.lanes ·.id)) (g := some) ((hnodup.filter _).map_on ?_) fun a ha => ?_
  · intro a ha b hb hab
    simp only [mem_filter, decide_eq_true_eq] at ha hb
    exact h.apart a ha.1 b hb.1 t ha.2 hb.2 hab
  · obtain ⟨lane, e, hlane, he, -⟩ := h.placed a (mem_filter.mp ha).1
    exact ⟨lane, mem_range.mpr (List.getElem?_eq_some_iff.mp he).1, hlane.symm⟩

/-- If every lane's last bar is still there at an instant that all bars have started by, the lanes are no more than the
bars at it. -/
theorem Packed.le_countP (h : Packed done s) {t : Int} (htaken : ∀ e ∈ s.laneEnds, t ≤ e)
    (hstart : ∀ a ∈ done, a.start ≤ t) : s.laneEnds.length ≤ done.countP (·.covers t) := by
  rw [countP_eq_length_filter, ← length_range (n := s.laneEnds.length)]
  refine length_le_of_labels (f := some) (g := (s.lanes ·.id)) (nodup_range.map (Option.some_injective _)) ?_
  intro i hi
  have he := getElem?_eq_getElem (mem_range.mp hi)
  obtain ⟨a, ha, hlane, hstop⟩ := h.last i _ he
  have hle : t ≤ a.stop := hstop ▸ htaken _ (mem_of_getElem? he)
  exact ⟨a, mem_filter.mpr ⟨ha, decide_eq_true ⟨hstart a ha, hle⟩⟩, hlane⟩

theorem Packed.place (h : Packed done s) (hid : ∀ a ∈ done, a.id ≠ b.id) (hstart : ∀ a ∈ done, a.start ≤ b.start) :
    Packed (b :: done) (s.place b) := by
  obtain ⟨lane, hlanes, hends, hfree, hlen⟩ := s.place_spec b
  have hb : (s.place b).lanes b.id = some lane := by simp [hlanes]
  have hold : ∀ a ∈ done, (s.place b).lanes a.id = s.lanes a.id := by
    intro a ha
    rw [hlanes, Function.update_of_ne (hid a ha)]
  -- A bar of the same lane has ended before the new bar starts.
  have hmeet : ∀ a ∈ done, ∀ t, a.covers t → b.covers t → s.lanes a.id ≠ some lane := by
    intro a ha t hat hbt hsame
    obtain ⟨lane', e, hlane', he, hle⟩ := h.placed a ha
    cases hlane'.symm.trans hsame
    have hended : e < b.start := hfree e he
    exact absurd (hbt.1.trans (hat.2.trans hle)) hended.not_ge
  refine ⟨?_, ?_, ?_, ?_⟩
  · rintro a (_ | ⟨_, ha⟩)
    · exact ⟨lane, b.stop, hb, by simp [hends], le_rfl⟩
    · obtain ⟨lane', e, hlane', he, hle⟩ := h.placed a ha
      rw [hold a ha]
      by_cases heq : lane' = lane
      · subst heq
        have hended : e < b.start := hfree e he
        exact ⟨lane', b.stop, hlane', by simp [hends], (hle.trans hended.le).trans b.start_le_stop⟩
      · exact ⟨lane', e, hlane', by rw [hends, if_neg heq, he], hle⟩
  · intro i e he
    rw [hends] at he
    split at he
    · next heq => exact ⟨b, mem_cons_self, heq ▸ hb, Option.some.inj he⟩
    · obtain ⟨a, ha, hlane, hstop⟩ := h.last i e he
      exact ⟨a, mem_cons_of_mem _ ha, (hold a ha).trans hlane, hstop⟩
  · rintro a (_ | ⟨_, ha⟩) a' (_ | ⟨_, ha'⟩) t hat hat' hsame
    · rfl
    · exact absurd ((hold a' ha').symm.trans (hsame.symm.trans hb)) (hmeet a' ha' t hat' hat)
    · exact absurd ((hold a ha).symm.trans (hsame.trans hb)) (hmeet a ha t hat hat')
    · exact h.apart a ha a' ha' t hat hat' ((hold a ha).symm.trans (hsame.trans (hold a' ha')))
  · rcases hlen with hlen | ⟨hlen, htaken⟩
    · obtain ⟨t, ht⟩ := h.full
      exact ⟨t, by rw [hlen]; exact ht.trans ((sublist_cons_self b done).countP_le)⟩
    · -- Every lane's last bar covers the new start, and so does the new bar.
      refine ⟨b.start, ?_⟩
      rw [hlen, countP_cons_of_pos (by simpa [Bar.covers] using b.start_le_stop)]
      exact Nat.succ_le_succ (h.le_countP htaken hstart)

/-! ## The whole run -/

/-- The bars of `l` placed from the last one on. -/
theorem packed_foldr {l : List Bar} (hids : (l.map (·.id)).Nodup)
    (hsorted : l.Pairwise (fun b a => a.start ≤ b.start)) :
    Packed l (l.foldr (fun b s => s.place b) ⟨[], fun _ => none⟩) := by
  induction l with
  | nil => exact ⟨by simp, by simp, by simp, 0, by simp⟩
  | cons b l ih =>
    rw [map_cons, nodup_cons] at hids
    rw [pairwise_cons] at hsorted
    refine (ih hids.2 hsorted.2).place (fun a ha heq => hids.1 ?_) hsorted.1
    exact heq ▸ mem_map_of_mem ha

theorem packed_assignLanes (c : Collation) {bars : List Bar} (hids : (bars.map (·.id)).Nodup) :
    ∃ s, s.lanes = assignLanes c bars ∧ Packed bars s := by
  have hperm : (bars.mergeSort c.le).reverse.Perm bars := (reverse_perm _).trans (mergeSort_perm bars c.le)
  obtain ⟨hplaced, hlast, hapart, hfull⟩ :=
    packed_foldr ((hperm.map (·.id)).nodup_iff.mpr hids) (pairwise_reverse.mpr (c.sorted bars))
  simp only [foldr_reverse, hperm.mem_iff, hperm.countP_eq] at hplaced hlast hapart hfull
  exact ⟨_, rfl, hplaced, hlast, hapart, hfull⟩

/-- Every bar has a lane, bars that meet are in different lanes, and the lanes are as many as the bars at the busiest
instant. -/
theorem assignLanes_minimal (c : Collation) (bars : List Bar) (hids : (bars.map (·.id)).Nodup) :
    (∀ b ∈ bars, (assignLanes c bars b.id).isSome) ∧
    (∀ a ∈ bars, ∀ b ∈ bars, a ≠ b → (∃ t, a.covers t ∧ b.covers t) →
      assignLanes c bars a.id ≠ assignLanes c bars b.id) ∧
    ∃ k, (∀ lane, (∃ b ∈ bars, assignLanes c bars b.id = some lane) ↔ lane < k) ∧
      IsGreatest (Set.range fun t => bars.countP (·.covers t)) k := by
  obtain ⟨s, hs, h⟩ := packed_assignLanes c hids
  rw [← hs]
  refine ⟨fun b hb => ?_, ?_, s.laneEnds.length, fun lane => ⟨?_, fun hlt => ?_⟩, ?_⟩
  · obtain ⟨lane, -, hlane, -⟩ := h.placed b hb
    exact Option.isSome_iff_exists.mpr ⟨lane, hlane⟩
  · rintro a ha b hb hne ⟨t, hat, hbt⟩ hsame
    exact hne (h.apart a ha b hb t hat hbt hsame)
  · rintro ⟨b, hb, hlane⟩
    obtain ⟨lane', e, hlane', he, -⟩ := h.placed b hb
    cases hlane'.symm.trans hlane
    exact (List.getElem?_eq_some_iff.mp he).1
  · obtain ⟨b, hb, hlane, -⟩ := h.last lane _ (getElem?_eq_getElem hlt)
    exact ⟨b, hb, hlane⟩
  · have hcount := h.countP_le (List.Nodup.of_map _ hids)
    obtain ⟨t, ht⟩ := h.full
    exact ⟨⟨t, (hcount t).antisymm ht⟩, Set.forall_mem_range.mpr hcount⟩

/-- The ends are inclusive: two bars that touch are in different lanes. -/
theorem assignLanes_minimal_touching :
    let c : Collation := ⟨fun a b => a.length - b.length, by omega, by omega⟩
    let bars : List Bar := [⟨"a", 0, 1, by decide⟩, ⟨"b", 1, 2, by decide⟩]
    assignLanes c bars "a" ≠ assignLanes c bars "b" := by
  intro c bars
  have hids : (bars.map (·.id)).Nodup := by decide
  exact (assignLanes_minimal c bars hids).2.1 _ mem_cons_self _ (mem_cons_of_mem _ mem_cons_self)
    (by simp) ⟨1, by decide, by decide⟩

end GoErp.Timeline
