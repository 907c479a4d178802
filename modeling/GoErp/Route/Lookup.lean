import GoErp.Route.Table

/-!
# `Route.Lookup` — a registered route is looked up

The path of a request for a route is its template with the values of the parameters, escaped (`instantiate`). Lookup
splits and unescapes it to the same segments, unless one of them is `.` or `..`, and walks to the node of the template;
so it answers with the route's entry, and with the route's own parameters exactly where the nodes on the way bear the
template's names (`lookup_iff`).
-/

namespace GoErp.Route

open Lib List

/-- The path of a request: the template with values for its parameters, escaped. -/
def instantiate (template : GoString) (values : List GoString) : GoString :=
  joined ((fill (pathSegments template) values).map pathEscape)

/-- Values for the parameters of a template: none is empty, `.` or `..`, and none is a static sibling. -/
structure Assignment (rt : RouteTable) (template : GoString) (values : List GoString) : Prop where
  length : values.length = (paramNames (pathSegments template)).length
  isValue : ∀ v ∈ values, IsValue v
  noSibling : rt.tree.NoSibling (pathSegments template) values

/-- `Lookup` answers with this very entry, and with the template's names mapped to the values. -/
def Finds (rt : RouteTable) (method : GoString) (entry : RouteEntry) (values : List GoString) : Prop :=
  let answer := rt.Lookup method (instantiate entry.pathTemplate values)
  answer.entry = some entry ∧ answer.result = .routeFound ∧
    ∀ x, answer.pathParams.get? x = Assoc.get? ((paramNames (pathSegments entry.pathTemplate)).zip values) x

/-- The nodes on the way bear the template's own names. -/
def OwnNames (rt : RouteTable) (template : GoString) : Prop :=
  rt.tree.namesAlong (pathSegments template) = paramNames (pathSegments template)

instance (rt : RouteTable) (template : GoString) : Decidable (OwnNames rt template) :=
  inferInstanceAs (Decidable (_ = _))

/-- No segment of the template is `.` or `..`. -/
def NoDots (template : GoString) : Prop := ∀ s ∈ pathSegments template, isDots s = false

/-! ## The segments of a request -/

theorem isDots_of_isParam {s : GoString} (h : isParam s = true) : isDots s = false := by
  have hhead : s.head? = some 123 := of_decide_eq_true (Bool.and_eq_true_iff.mp h).1
  have hne : ∀ t : GoString, t.head? ≠ some 123 → s ≠ t := by
    rintro t ht rfl
    exact ht hhead
  rw [isDots, decide_eq_false (hne (go ".") (by decide)), decide_eq_false (hne (go "..") (by decide))]
  rfl

variable {segments values : List GoString}

theorem mem_fill {w : GoString} (h : w ∈ fill segments values) : w ∈ segments ∨ w ∈ values := by
  induction segments generalizing values with
  | nil => cases h
  | cons s ss ih =>
    by_cases hs : isParam s = true
    · cases values with
      | nil =>
        have hfill : fill (s :: ss) [] = s :: fill ss [] := if_pos hs
        rw [hfill] at h
        rcases mem_cons.mp h with rfl | h
        · exact .inl mem_cons_self
        · exact (ih h).imp (mem_cons_of_mem s) id
      | cons v values =>
        rw [fill_param hs] at h
        rcases mem_cons.mp h with rfl | h
        · exact .inr mem_cons_self
        · exact (ih h).imp (mem_cons_of_mem s) (mem_cons_of_mem v)
    · rw [fill_static hs] at h
      rcases mem_cons.mp h with rfl | h
      · exact .inl mem_cons_self
      · exact (ih h).imp (mem_cons_of_mem s) id

/-- A static segment stays. -/
theorem mem_fill_of_static {s : GoString} (hmem : s ∈ segments) (hs : ¬ isParam s = true)
    (hlength : values.length = (paramNames segments).length) : s ∈ fill segments values := by
  induction segments generalizing values with
  | nil => cases hmem
  | cons t ts ih =>
    by_cases ht : isParam t = true
    · rw [paramNames_param ht] at hlength
      cases values with
      | nil => cases hlength
      | cons v values =>
        rw [fill_param ht]
        rcases mem_cons.mp hmem with rfl | hmem
        · exact absurd ht hs
        · exact mem_cons_of_mem v (ih hmem (Nat.succ.inj hlength))
    · rw [paramNames_static ht] at hlength
      rw [fill_static ht]
      rcases mem_cons.mp hmem with rfl | hmem
      · exact mem_cons_self
      · exact mem_cons_of_mem t (ih hmem hlength)

theorem fill_noDots_iff (hlength : values.length = (paramNames segments).length) (hvalues : ∀ v ∈ values, IsValue v) :
    (∀ w ∈ fill segments values, isDots w = false) ↔ ∀ s ∈ segments, isDots s = false := by
  constructor
  · intro h s hmem
    by_cases hs : isParam s = true
    · exact isDots_of_isParam hs
    · exact h s (mem_fill_of_static hmem hs hlength)
  intro h w hw
  rcases mem_fill hw with hw | hw
  · exact h w hw
  · exact (hvalues w hw).2

theorem pathSegments_instantiate {template : GoString} (hvalues : ∀ v ∈ values, IsValue v) :
    pathSegments (instantiate template values) = (fill (pathSegments template) values).map pathEscape := by
  have hne : ∀ w ∈ fill (pathSegments template) values, w ≠ [] := by
    intro w hw
    rcases mem_fill hw with hw | hw
    · exact (pathSegments_wellFormed template w hw).1
    · exact (hvalues w hw).1
  apply pathSegments_joined
  · intro e he
    obtain ⟨w, hw, rfl⟩ := mem_map.mp he
    exact isSegment_pathEscape (hne w hw)
  intro e he b hb
  obtain ⟨w, -, rfl⟩ := mem_map.mp he
  exact (mem_pathEscape w b hb).1

/-- Escaped segments are read back, where none is `.` or `..`. -/
theorem decodeSegments_escaped {ws : List GoString} (h : ∀ w ∈ ws, isDots w = false) :
    decodeSegments (ws.map pathEscape) = some ws := by
  induction ws with
  | nil => rfl
  | cons w ws ih =>
    obtain ⟨hw, hrest⟩ := forall_mem_cons.mp h
    rw [map_cons, decodeSegments, pathEscape_dots, hw, pathUnescape_pathEscape, ih hrest]
    rfl

theorem decodeSegments_dots {ws : List GoString} (h : ¬ ∀ w ∈ ws, isDots w = false) :
    decodeSegments (ws.map pathEscape) = none := by
  induction ws with
  | nil => exact absurd nofun h
  | cons w ws ih =>
    rw [map_cons, decodeSegments, pathEscape_dots]
    cases hw : isDots w with
    | true => rfl
    | false =>
      have hrest : ¬ ∀ w ∈ ws, isDots w = false := fun hall => h (forall_mem_cons.mpr ⟨hw, hall⟩)
      rw [ih hrest, pathUnescape_pathEscape]
      rfl

/-! ## The answer -/

section

variable {rt : RouteTable} {method : GoString} {entry : RouteEntry} {values : List GoString}

/-- A held route is found; the parameters are under the names of the nodes. -/
theorem lookup_instantiate (hheld : rt.handler method entry.pathTemplate = some entry)
    (h : Assignment rt entry.pathTemplate values) (hdots : NoDots entry.pathTemplate) :
    rt.Lookup method (instantiate entry.pathTemplate values) =
      ⟨some entry, insertAll .empty (rt.tree.namesAlong (pathSegments entry.pathTemplate)) values,
        .routeFound, []⟩ := by
  obtain ⟨target, hget, hhandler⟩ := Option.bind_eq_some_iff.mp hheld
  have hdecode := decodeSegments_escaped ((fill_noDots_iff h.length h.isValue).mpr hdots)
  have hwalk := walk_fill hget h.length h.noSibling .empty
  rw [RouteTable.Lookup, pathSegments_instantiate h.isValue, hdecode]
  dsimp only
  rw [hwalk]
  dsimp only
  rw [hhandler]

theorem lookup_dots (h : Assignment rt entry.pathTemplate values) (hdots : ¬ NoDots entry.pathTemplate) :
    rt.Lookup method (instantiate entry.pathTemplate values) = .fail .routeBadPath [] := by
  have hdecode := decodeSegments_dots (mt (fill_noDots_iff h.length h.isValue).mp hdots)
  rw [RouteTable.Lookup, pathSegments_instantiate h.isValue, hdecode]

end

theorem length_namesAlong {n target : Node} (hget : n.get (segments.map key) = some target) :
    (n.namesAlong segments).length = (paramNames segments).length := by
  induction segments generalizing n with
  | nil => rfl
  | cons s ss ih =>
    obtain ⟨c, hc, hget⟩ := Option.bind_eq_some_iff.mp hget
    rw [Node.namesAlong, hc]
    by_cases hs : isParam s = true
    · simp only [if_pos hs]
      rw [paramNames_param hs, length_cons, length_cons, ih hget]
    · simp only [if_neg hs]
      rw [paramNames_static hs, ih hget]

/-- Names under which different values are found in the same way are the same names. -/
theorem names_eq_of_zip {names own : List GoString} (hvalues : values.Nodup) (hlength : names.length = values.length)
    (hlength' : own.length = values.length) (h : ∀ x v, (x, v) ∈ own.zip values → (x, v) ∈ names.zip values) :
    names = own := by
  refine ext_getElem (hlength.trans hlength'.symm) fun i hi hi' => ?_
  have hmem : (own[i], values[i]) ∈ own.zip values := by
    rw [mem_iff_getElem]
    refine ⟨i, ?_, getElem_zip⟩
    rw [length_zip]
    omega
  obtain ⟨j, hj, hpair⟩ := mem_iff_getElem.mp (h _ _ hmem)
  rw [getElem_zip] at hpair
  have hindex : j = i := (hvalues.getElem_inj_iff).mp (congrArg Prod.snd hpair)
  subst hindex
  exact congrArg Prod.fst hpair

/-- **A held route is found with its own parameters for every assignment of values exactly if the nodes on its way
    bear its names and none of its segments is `.` or `..`.** -/
theorem lookup_iff {rt : RouteTable} {method : GoString} {entry : RouteEntry}
    (hheld : rt.handler method entry.pathTemplate = some entry)
    (hdistinct : (paramNames (pathSegments entry.pathTemplate)).Nodup) :
    (∀ values, Assignment rt entry.pathTemplate values → Finds rt method entry values) ↔
      OwnNames rt entry.pathTemplate ∧ NoDots entry.pathTemplate := by
  obtain ⟨target, hget, -⟩ := Option.bind_eq_some_iff.mp hheld
  constructor
  · intro h
    -- different values tell the names apart
    obtain ⟨values, hlength, hvalues, hsibling, hnodup, -⟩ := exists_values (pathSegments entry.pathTemplate) rt.tree 0
    have hassign : Assignment rt entry.pathTemplate values := ⟨hlength, hvalues, hsibling⟩
    obtain ⟨hentry, -, hparams⟩ := h values hassign
    have hdots : NoDots entry.pathTemplate := by
      by_contra hdots
      rw [lookup_dots hassign hdots] at hentry
      cases hentry
    refine ⟨?_, hdots⟩
    refine names_eq_of_zip hnodup ((length_namesAlong hget).trans hlength.symm) hlength.symm fun x v hxv => ?_
    have hkeys : (((paramNames (pathSegments entry.pathTemplate)).zip values).map Prod.fst).Nodup := by
      rw [map_fst_zip hlength.ge]
      exact hdistinct
    have hx := hparams x
    rw [lookup_instantiate hheld hassign hdots, Assoc.get?_of_mem hkeys hxv] at hx
    exact (mem_zip_of_insertAll hx).resolve_right nofun
  · rintro ⟨hnames, hdots⟩ values hassign
    have hanswer := lookup_instantiate hheld hassign hdots
    rw [show rt.tree.namesAlong _ = _ from hnames] at hanswer
    unfold Finds
    rw [hanswer]
    refine ⟨rfl, rfl, fun x => ?_⟩
    show (insertAll _ _ _).get? x = _
    rw [insertAll_eq_lookup hdistinct]
    cases Assoc.get? ((paramNames (pathSegments entry.pathTemplate)).zip values) x <;> rfl

end GoErp.Route
