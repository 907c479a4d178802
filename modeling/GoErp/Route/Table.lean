import GoErp.Domain.Ast
import GoErp.Lib.Assoc
import GoErp.Lib.Table
import GoErp.Route.Path

/-!
# `Route.Table` — the route table

`route/route.go`: a tree whose edges are segments. A node has static children by segment and at most one parameter
child, whose name is that of the template that made it. `Lookup` takes the static child where there is one and never
comes back.

What a tree holds is read along *keys*: a segment without its parameter name (`Node.get`). `Register` changes the
handler at the keys of its template and nothing else (`handler_register`), and a lookup that no static sibling leads
astray ends at the node of its template (`walk_fill`).
-/

namespace GoErp.Route

open Lib List

structure WorkflowManifest where
  field : GoString
  from_ : GoString
  to_ : GoString
  condition : GoString
  conditionExpr : Option Domain.Expr := none
  deriving DecidableEq

structure RouteManifest where
  auth : GoString
  permissions : List GoString
  model : GoString := []
  responseIsList : Bool := false
  name : GoString := []
  /-- parameter names to declared kinds -/
  pathParams : List (GoString × GoString) := []
  crudAction : GoString := []
  engineNative : Bool := false
  storageBackend : GoString := []
  workflow : Option WorkflowManifest := none
  deriving DecidableEq

structure RouteEntry where
  moduleName : GoString
  manifest : RouteManifest
  pathTemplate : GoString
  deriving DecidableEq

/-- `node` -/
inductive Node where
  | mk (staticChildren : List (GoString × Node)) (paramChild : Option Node) (paramName : GoString)
    (handlers : Table GoString RouteEntry)

namespace Node

def staticChildren : Node → List (GoString × Node)
  | .mk s _ _ _ => s

def paramChild : Node → Option Node
  | .mk _ p _ _ => p

def paramName : Node → GoString
  | .mk _ _ n _ => n

def handlers : Node → Table GoString RouteEntry
  | .mk _ _ _ h => h

/-- A new node. -/
def empty (paramName : GoString) : Node := .mk [] none paramName Table.empty

end Node

structure RouteTable where
  tree : Node

/-- `New` -/
def New : RouteTable := ⟨.empty []⟩

/-- A segment in braces stands for a parameter. -/
def isParam (segment : GoString) : Bool := segment.head? = some 123 && segment.getLast? = some 125

/-- The text between the braces. -/
def paramNameOf (segment : GoString) : GoString := segment.tail.dropLast

/-- The loop of `Register`. -/
def Node.register (method : GoString) (entry : RouteEntry) : List GoString → Node → Node
  | [], n => .mk n.staticChildren n.paramChild n.paramName (n.handlers.insert method entry)
  | segment :: segments, n =>
    if isParam segment then
      let child := n.paramChild.getD (.empty (paramNameOf segment))
      .mk n.staticChildren (some (register method entry segments child)) n.paramName n.handlers
    else
      let child := (Assoc.get? n.staticChildren segment).getD (.empty [])
      .mk (Assoc.put n.staticChildren segment (register method entry segments child))
        n.paramChild n.paramName n.handlers

def RouteTable.Register (rt : RouteTable) (method path : GoString) (entry : RouteEntry) : RouteTable :=
  ⟨rt.tree.register method entry (pathSegments path)⟩

/-- `find` -/
def Node.find : List GoString → Node → Option Node
  | [], n => some n
  | segment :: segments, n =>
    if segment = [] then find segments n
    else if isParam segment then n.paramChild.bind (find segments)
    else (Assoc.get? n.staticChildren segment).bind (find segments)

def RouteTable.Registered (rt : RouteTable) (method path : GoString) : Bool :=
  match rt.tree.find (pathSegments path) with
  | none => false
  | some n => (n.handlers.get? method).isSome

/-! ## `Lookup` -/

inductive LookupResult where
  | routeFound
  | routeNotFound
  | routeMethodNotAllowed
  | routeBadPath
  deriving DecidableEq

/-- The results of `Lookup`. -/
structure LookupAnswer where
  entry : Option RouteEntry
  pathParams : Table GoString GoString
  result : LookupResult
  allowedMethods : List GoString

def LookupAnswer.fail (result : LookupResult) (allowedMethods : List GoString) : LookupAnswer :=
  ⟨none, .empty, result, allowedMethods⟩

/-- The first loop of `Lookup`: the segments, unescaped. -/
def decodeSegments : List GoString → Option (List GoString)
  | [] => some []
  | segment :: segments =>
    if isDots segment then none
    else do
      let decoded ← pathUnescape segment
      let rest ← decodeSegments segments
      return decoded :: rest

/-- The second loop of `Lookup`. -/
def Node.walk : List GoString → Node → Table GoString GoString → Option (Node × Table GoString GoString)
  | [], n, pathParams => some (n, pathParams)
  | segment :: segments, n, pathParams =>
    match Assoc.get? n.staticChildren segment with
    | some child => walk segments child pathParams
    | none =>
      match n.paramChild with
      | some child => walk segments child (pathParams.insert child.paramName segment)
      | none => none

/-- Each segment is decoded before it is matched, so an escaped slash does not split one. -/
def RouteTable.Lookup (rt : RouteTable) (method path : GoString) : LookupAnswer :=
  match decodeSegments (pathSegments path) with
  | none => .fail .routeBadPath []
  | some segments =>
    match rt.tree.walk segments .empty with
    | none => .fail .routeNotFound []
    | some (current, pathParams) =>
      match current.handlers.get? method with
      | some handler => ⟨some handler, pathParams, .routeFound, []⟩
      | none =>
        if current.handlers.rows ≠ [] then
          .fail .routeMethodNotAllowed ((current.handlers.rows.map Prod.fst).mergeSort fun a b => decide (a ≤ b))
        else .fail .routeNotFound []

/-! ## `All` -/

mutual

/-- `collectAll`, in the order of the lists: the sort of `All` hides it. -/
def Node.collectAll : Node → List (GoString × RouteEntry)
  | .mk staticChildren paramChild _ handlers =>
    handlers.rows ++ collectList staticChildren ++ collectParam paramChild

def Node.collectList : List (GoString × Node) → List (GoString × RouteEntry)
  | [] => []
  | (_, n) :: ns => n.collectAll ++ collectList ns

def Node.collectParam : Option Node → List (GoString × RouteEntry)
  | none => []
  | some n => n.collectAll

end

/-- `All`: every method with its entry, sorted by path and method. -/
def RouteTable.All (rt : RouteTable) : List (GoString × RouteEntry) :=
  rt.tree.collectAll.mergeSort fun a b =>
    decide (a.2.pathTemplate < b.2.pathTemplate) || (a.2.pathTemplate = b.2.pathTemplate && decide (a.1 ≤ b.1))

/-! ## What a tree holds -/

/-- A segment without the name of its parameter. -/
def key (segment : GoString) : Option GoString := if isParam segment then none else some segment

def Node.child (n : Node) : Option GoString → Option Node
  | none => n.paramChild
  | some segment => Assoc.get? n.staticChildren segment

/-- The node at the end of the keys. -/
def Node.get : List (Option GoString) → Node → Option Node
  | [], n => some n
  | k :: ks, n => (n.child k).bind (get ks)

/-- The handler of a method at the end of the keys. -/
def Node.handler (ks : List (Option GoString)) (method : GoString) (n : Node) : Option RouteEntry :=
  (n.get ks).bind fun m => m.handlers.get? method

theorem find_eq_get {segments : List GoString} (h : ∀ s ∈ segments, IsSegment s) (n : Node) :
    n.find segments = n.get (segments.map key) := by
  induction segments generalizing n with
  | nil => rfl
  | cons s ss ih =>
    have hrest : Node.find ss = Node.get (ss.map key) := funext (ih fun x hx => h x (mem_cons_of_mem s hx))
    rw [Node.find, if_neg (h s mem_cons_self).1, map_cons, Node.get, hrest, key]
    split <;> rfl

/-- The handler of a method at a path. -/
def RouteTable.handler (rt : RouteTable) (method path : GoString) : Option RouteEntry :=
  rt.tree.handler ((pathSegments path).map key) method

theorem registered_iff {rt : RouteTable} {method path : GoString} :
    rt.Registered method path = true ↔ (rt.handler method path).isSome = true := by
  unfold RouteTable.Registered RouteTable.handler Node.handler
  rw [find_eq_get (pathSegments_wellFormed path)]
  cases rt.tree.get ((pathSegments path).map key) with
  | none => exact Iff.rfl
  | some n => exact Iff.rfl

theorem get_empty_cons (name : GoString) (k : Option GoString) (ks : List (Option GoString)) :
    (Node.empty name).get (k :: ks) = none := by
  cases k <;> rfl

theorem handler_empty (name : GoString) (ks : List (Option GoString)) (method : GoString) :
    (Node.empty name).handler ks method = none := by
  cases ks with
  | nil => rfl
  | cons k ks => rw [Node.handler, get_empty_cons, Option.bind_none]

theorem handler_cons (n : Node) (k : Option GoString) (ks : List (Option GoString)) (method : GoString) :
    n.handler (k :: ks) method = (n.child k).bind fun c => c.handler ks method := by
  rw [Node.handler, Node.get, Option.bind_assoc]
  rfl

/-- The name of a node that is made for a segment. -/
def nodeName (segment : GoString) : GoString := if isParam segment then paramNameOf segment else []

section

variable {method : GoString} {entry : RouteEntry}

/-- The child at the segment is the old one or a new one, registered in; the other children are as they were. -/
theorem child_register (s : GoString) (ss : List GoString) (n : Node) (k : Option GoString) :
    (n.register method entry (s :: ss)).child k =
      if k = key s then
        some (((n.child (key s)).getD (.empty (nodeName s))).register method entry ss)
      else n.child k := by
  rw [Node.register, key, nodeName]
  split
  · cases k with
    | none => rfl
    | some t => rfl
  cases k with
  | none => rfl
  | some t =>
    show Assoc.get? (Assoc.put _ _ _) t = _
    rw [Assoc.get?_put]
    by_cases h : t = s
    · subst h
      rw [if_pos rfl, if_pos rfl]
      rfl
    · rw [if_neg h, if_neg (fun h' => h (Option.some.inj h'))]
      rfl

/-- **`Register` changes the handler of its method at the keys of its path, and no other.** -/
theorem node_handler_register (ss : List GoString) (n : Node) (ks : List (Option GoString)) (m : GoString) :
    (n.register method entry ss).handler ks m =
      if m = method ∧ ks = ss.map key then some entry else n.handler ks m := by
  induction ss generalizing n ks with
  | nil =>
    cases ks with
    | nil =>
      show (n.handlers.insert method entry).get? m = if m = method ∧ ([] : List (Option GoString)) = [] then _ else _
      rw [Table.get?_insert]
      simp only [and_true]
      rfl
    | cons k ks =>
      rw [if_neg (fun h => cons_ne_nil k ks h.2), handler_cons, handler_cons]
      cases k <;> rfl
  | cons s ss ih =>
    cases ks with
    | nil =>
      rw [if_neg (fun h => cons_ne_nil _ _ h.2.symm), Node.register]
      split <;> rfl
    | cons k ks =>
      rw [handler_cons, child_register, map_cons]
      by_cases hk : k = key s
      · subst hk
        rw [if_pos rfl, Option.bind_some, ih, handler_cons]
        by_cases hrest : m = method ∧ ks = ss.map key
        · rw [if_pos hrest, if_pos ⟨hrest.1, by rw [hrest.2]⟩]
        have hne : ¬ (m = method ∧ key s :: ks = key s :: ss.map key) := fun h => hrest ⟨h.1, (List.cons.inj h.2).2⟩
        rw [if_neg hrest, if_neg hne]
        -- a child that was not there held no handler
        cases n.child (key s) with
        | none => exact handler_empty _ _ _
        | some c => rfl
      · rw [if_neg hk, if_neg fun h => hk (List.cons.inj h.2).1, handler_cons]

theorem handler_register (rt : RouteTable) (path : GoString) (m p : GoString) :
    (rt.Register method path entry).handler m p =
      if m = method ∧ (pathSegments p).map key = (pathSegments path).map key then some entry else rt.handler m p :=
  node_handler_register _ _ _ _

end

/-! ## Lookups along a template -/

/-- The parameter names of a template, in order. -/
def paramNames (segments : List GoString) : List GoString := (segments.filter isParam).map paramNameOf

/-- The segments with values in place of the parameters. -/
def fill : List GoString → List GoString → List GoString
  | [], _ => []
  | segment :: segments, values =>
    if isParam segment then
      match values with
      | v :: rest => v :: fill segments rest
      | [] => segment :: fill segments []
    else segment :: fill segments values

/-- The names of the parameter nodes on the way. -/
def Node.namesAlong : List GoString → Node → List GoString
  | [], _ => []
  | segment :: segments, n =>
    match n.child (key segment) with
    | none => []
    | some c => if isParam segment then c.paramName :: namesAlong segments c else namesAlong segments c

/-- No value is the segment of a static child where its parameter is. -/
def Node.NoSibling : List GoString → List GoString → Node → Prop
  | [], _, _ => True
  | segment :: segments, values, n =>
    if isParam segment then
      match values with
      | [] => True
      | v :: rest => Assoc.get? n.staticChildren v = none ∧ ∀ c, n.child (key segment) = some c →
          NoSibling segments rest c
    else ∀ c, n.child (key segment) = some c → NoSibling segments values c

section

variable {s : GoString} {ss : List GoString}

theorem paramNames_param (hs : isParam s = true) : paramNames (s :: ss) = paramNameOf s :: paramNames ss := by
  rw [paramNames, filter_cons_of_pos hs]
  rfl

theorem paramNames_static (hs : ¬ isParam s = true) : paramNames (s :: ss) = paramNames ss := by
  rw [paramNames, filter_cons_of_neg hs]
  rfl

theorem fill_param (hs : isParam s = true) (v : GoString) (values : List GoString) :
    fill (s :: ss) (v :: values) = v :: fill ss values :=
  if_pos hs

theorem fill_static (hs : ¬ isParam s = true) (values : List GoString) :
    fill (s :: ss) values = s :: fill ss values := by
  cases values <;> exact if_neg hs

theorem noSibling_param (hs : isParam s = true) (v : GoString) (values : List GoString) (n : Node) :
    n.NoSibling (s :: ss) (v :: values) ↔
      Assoc.get? n.staticChildren v = none ∧ ∀ c, n.child (key s) = some c → c.NoSibling ss values :=
  Iff.of_eq (if_pos hs)

theorem noSibling_static (hs : ¬ isParam s = true) (values : List GoString) (n : Node) :
    n.NoSibling (s :: ss) values ↔ ∀ c, n.child (key s) = some c → c.NoSibling ss values := by
  cases values <;> exact Iff.of_eq (if_neg hs)

end

/-- `pathParams` after a walk: a later value replaces an earlier one of the same name. -/
def insertAll (params : Table GoString GoString) : List GoString → List GoString → Table GoString GoString
  | name :: names, v :: values => insertAll (params.insert name v) names values
  | _, _ => params

variable {values : List GoString}

/-- **A lookup that no static sibling leads astray ends at the node of its template.** -/
theorem walk_fill {segments : List GoString} {n target : Node} (hget : n.get (segments.map key) = some target)
    (hlength : values.length = (paramNames segments).length) (hsibling : n.NoSibling segments values)
    (params : Table GoString GoString) :
    n.walk (fill segments values) params = some (target, insertAll params (n.namesAlong segments) values) := by
  induction segments generalizing n values params with
  | nil =>
    cases hget
    rfl
  | cons s ss ih =>
    obtain ⟨c, hc, hget⟩ := Option.bind_eq_some_iff.mp hget
    rw [Node.namesAlong, hc]
    by_cases hs : isParam s = true
    · rw [paramNames_param hs] at hlength
      cases values with
      | nil => cases hlength
      | cons v rest =>
        obtain ⟨hv, hrest⟩ := (noSibling_param hs v rest n).mp hsibling
        have hparam : n.paramChild = some c := by
          rw [key, if_pos hs] at hc
          exact hc
        rw [fill_param hs, Node.walk, hv, hparam]
        show c.walk (fill ss rest) (params.insert c.paramName v) = _
        rw [ih hget (Nat.succ.inj hlength) (hrest c hc)]
        simp only [if_pos hs]
        rfl
    · rw [paramNames_static hs] at hlength
      have hstatic : Assoc.get? n.staticChildren s = some c := by
        rw [key, if_neg hs] at hc
        exact hc
      rw [fill_static hs, Node.walk, hstatic]
      simp only [if_neg hs]
      exact ih hget hlength ((noSibling_static hs values n).mp hsibling c hc) params

/-! ### The parameters -/

variable {names : List GoString}

theorem insertAll_of_notMem {x : GoString} (hx : x ∉ names) (values : List GoString)
    (params : Table GoString GoString) : (insertAll params names values).get? x = params.get? x := by
  induction names generalizing values params with
  | nil => rfl
  | cons name names ih =>
    cases values with
    | nil => rfl
    | cons v values =>
      have hne : x ≠ name := fun h => hx (mem_cons.mpr (.inl h))
      rw [insertAll, ih fun h => hx (mem_cons_of_mem name h), Table.get?_insert, if_neg hne]

/-- A value that is found was given under that name. -/
theorem mem_zip_of_insertAll {params : Table GoString GoString} {x v : GoString}
    (h : (insertAll params names values).get? x = some v) : (x, v) ∈ names.zip values ∨ params.get? x = some v := by
  induction names generalizing values params with
  | nil => exact .inr h
  | cons name names ih =>
    cases values with
    | nil => exact .inr h
    | cons w values =>
      rcases ih h with hmem | hget
      · exact .inl (mem_cons_of_mem _ hmem)
      rw [Table.get?_insert] at hget
      split at hget
      · rename_i hname
        cases hget
        rw [hname]
        exact .inl mem_cons_self
      · exact .inr hget

/-- Distinct names have their own values. -/
theorem insertAll_eq_lookup (hnodup : names.Nodup) (params : Table GoString GoString) (x : GoString) :
    (insertAll params names values).get? x = (Assoc.get? (names.zip values) x).or (params.get? x) := by
  induction names generalizing values params with
  | nil => rfl
  | cons name names ih =>
    cases values with
    | nil => rfl
    | cons v values =>
      obtain ⟨hname, hrest⟩ := nodup_cons.mp hnodup
      rw [insertAll, zip_cons_cons, Assoc.get?_cons]
      by_cases hx : name = x
      · subst hx
        rw [insertAll_of_notMem hname, Table.get?_insert_self, if_pos rfl]
        rfl
      · rw [ih hrest, Table.get?_insert, if_neg (Ne.symm hx), if_neg hx]

/-! ### Values that no table rejects -/

/-- What a request may have for a parameter. -/
def IsValue (v : GoString) : Prop := v ≠ [] ∧ isDots v = false

/-- There are values for every template, all different. -/
theorem exists_values (segments : List GoString) (n : Node) (size : Nat) :
    ∃ values : List GoString, values.length = (paramNames segments).length ∧ (∀ v ∈ values, IsValue v) ∧
      n.NoSibling segments values ∧ values.Nodup ∧ ∀ v ∈ values, size < v.length := by
  induction segments generalizing n size with
  | nil => exact ⟨[], rfl, nofun, trivial, nodup_nil, nofun⟩
  | cons s ss ih =>
    by_cases hs : isParam s = true
    · -- longer than the segment of any static child, and than all values before it
      let v : GoString := List.replicate (size + (n.staticChildren.map fun x => x.1.length).sum + 3) 97
      have hv : v.length = size + (n.staticChildren.map fun x => x.1.length).sum + 3 := length_replicate
      obtain ⟨values, hlength, hvalues, hsibling, hnodup, hsize⟩ :=
        ih ((n.child (key s)).getD (.empty [])) v.length
      refine ⟨v :: values, ?_, ?_, ?_, ?_, ?_⟩
      · rw [paramNames_param hs, length_cons, length_cons, hlength]
      · refine forall_mem_cons.mpr ⟨⟨?_, ?_⟩, hvalues⟩
        · intro h
          rw [h] at hv
          cases hv
        have hlong : ∀ t : GoString, t.length ≤ 2 → v ≠ t := by
          rintro t ht rfl
          omega
        rfl
      · have hlt : (n.staticChildren.map fun x => x.1.length).sum < v.length := by omega
        refine (noSibling_param hs v values n).mpr ⟨Assoc.get?_eq_none_of_lt List.length hlt, fun c hc => ?_⟩
        rw [hc] at hsibling
        exact hsibling
      · exact nodup_cons.mpr ⟨fun h => absurd (hsize v h) (Nat.lt_irrefl _), hnodup⟩
      refine forall_mem_cons.mpr ⟨by omega, fun w hw => ?_⟩
      have hw' := hsize w hw
      omega
    · obtain ⟨values, hlength, hvalues, hsibling, hnodup, hsize⟩ := ih ((n.child (key s)).getD (.empty [])) size
      refine ⟨values, by rw [paramNames_static hs, hlength], hvalues, ?_, hnodup, hsize⟩
      refine (noSibling_static hs values n).mpr fun c hc => ?_
      rw [hc] at hsibling
      exact hsibling

end GoErp.Route
