import GoErp.Lib.Assoc
import GoErp.Lib.Separator
import GoErp.Module.Manifest

/-!
# `Event.Identity` — which emissions count as repeats

`deriveEventID` (`wasm/host_event.go`) gives an emission with an idempotency key a name-based id, and the delivery job
is unique by that id (`event/delivery.go`). The key is given by the caller or read from the payload field that the
module declares for the event (`EventRegistry.Register`, `event/event.go`).

Emitting module and event version are not in the name, so emissions that differ in these alone are taken for repeats.
The field is registered by event name, so it is that of another version where the versions declare different ones.
`emissions_kept_iff` says that nothing else goes wrong.
-/

namespace GoErp.Event

open Lib List

/-! ## The key of an emission -/

/-- An entry of `emits` with the payload field that holds its key, `""` for none. -/
structure EmitDeclaration extends Module.EventDeclaration where
  idempotencyKeyField : String
deriving DecidableEq, Repr

/-- `emitIdempotencyField`: the declared field by module and event name. -/
abbrev EmitIdempotencyField : Type := String → String → Option String

/-- The loop of `Register` over the `emits` of a module; a later entry for the same name replaces an earlier one. -/
def registerEmits (r : EmitIdempotencyField) (moduleName : String) : List EmitDeclaration → EmitIdempotencyField
  | [] => r
  | emit :: emits =>
    if emit.idempotencyKeyField = "" then registerEmits r moduleName emits
    else
      registerEmits (fun m name =>
        if m = moduleName ∧ name = emit.name then some emit.idempotencyKeyField else r m name)
        moduleName emits

/-- The registry of the modules with these `emits`. -/
def registry (emits : String → List EmitDeclaration) : EmitIdempotencyField := fun moduleName =>
  registerEmits (fun _ _ => none) moduleName (emits moduleName) moduleName

/-- An emission. The payload is given decoded: `none` if it is no map, else its fields as `fmt` prints them, with
`none` for `nil`. -/
structure Emission (UUID : Type) where
  tenantID : String
  moduleName : String
  name : String
  version : Int
  payload : Option (List (String × Option String))
  explicitKey : String
  /-- what `uuid.NewV7` gives here -/
  newV7 : UUID
deriving DecidableEq, Repr

variable {UUID : Type}

/-- The version that the host function works with. -/
def Emission.effectiveVersion (e : Emission UUID) : Int :=
  if e.version ≤ 0 then Module.defaultEventVersion else e.version

/-- The text of a payload field, if it is there. -/
def extractPayloadField (payload : Option (List (String × Option String))) (field : String) : Option String := do
  let decoded ← payload
  let v ← Assoc.get? decoded field
  v

/-- The key that `deriveEventID` works with: the explicit one, else the one in the payload; `""` for none. -/
def Emission.idempotencyKey (reg : EmitIdempotencyField) (e : Emission UUID) : String :=
  if e.explicitKey = "" then
    match reg e.moduleName e.name with
    | some field => (extractPayloadField e.payload field).getD ""
    | none => ""
  else e.explicitKey

section

variable (newSHA1UUID : String → UUID) (reg : EmitIdempotencyField)

/-- The id of an emission, in which neither its module nor its version has a part. -/
def deriveEventID (e : Emission UUID) : UUID :=
  if e.idempotencyKey reg = "" then e.newV7
  else newSHA1UUID (e.tenantID ++ "|" ++ e.name ++ "|" ++ e.idempotencyKey reg)

/-! ## The delivery jobs -/

/-- The arguments of a delivery job, of which the id decides whether it is a duplicate. -/
structure DeliveryJob (UUID : Type) where
  eventID : UUID
  event : Emission UUID

variable [DecidableEq UUID]

/-- River inserts the job unless the window holds one with its id. -/
def enqueue (queue : List (DeliveryJob UUID)) (e : Emission UUID) : List (DeliveryJob UUID) :=
  if queue.any fun job => job.eventID = deriveEventID newSHA1UUID reg e then queue
  else queue ++ [⟨deriveEventID newSHA1UUID reg e, e⟩]

/-- The jobs after the emissions of one window. -/
def deliveries (es : List (Emission UUID)) : List (DeliveryJob UUID) := es.foldl (enqueue newSHA1UUID reg) []

end

/-! ## Repeats -/

variable {newSHA1UUID : String → UUID} {reg : EmitIdempotencyField}

section

variable (emits : String → List EmitDeclaration)

/-- The module declares the event in the version that is emitted (`ModuleEmits`). -/
def Emission.Declared (e : Emission UUID) : Prop :=
  ∃ d ∈ emits e.moduleName, d.name = e.name ∧ d.effectiveVersion = e.effectiveVersion

/-- The key of an emission by the declaration of its own version. -/
def Emission.declaredKey (e : Emission UUID) : String :=
  if e.explicitKey = "" then
    match (emits e.moduleName).find? fun d => d.name = e.name ∧ d.effectiveVersion = e.effectiveVersion with
    | some d =>
      if d.idempotencyKeyField = "" then "" else (extractPayloadField e.payload d.idempotencyKeyField).getD ""
    | none => ""
  else e.explicitKey

/-- One emission is a repeat of the other. -/
structure SameEvent (e e' : Emission UUID) : Prop where
  tenantID : e.tenantID = e'.tenantID
  moduleName : e.moduleName = e'.moduleName
  name : e.name = e'.name
  version : e.effectiveVersion = e'.effectiveVersion
  key : e.declaredKey emits = e'.declaredKey emits

/-- They agree in all that the id is made of, but come from different modules or have different versions. -/
structure Clash (e e' : Emission UUID) : Prop where
  tenantID : e.tenantID = e'.tenantID
  name : e.name = e'.name
  key : e.declaredKey emits = e'.declaredKey emits
  differs : e.moduleName ≠ e'.moduleName ∨ e.effectiveVersion ≠ e'.effectiveVersion

/-- The versions of an event name have the same key field. -/
def OneField : Prop :=
  ∀ moduleName, ∀ d ∈ emits moduleName, ∀ d' ∈ emits moduleName, d.name = d'.name →
    d.idempotencyKeyField = d'.idempotencyKeyField

end

/-! ## The registered field -/

variable {emits : String → List EmitDeclaration} {moduleName name : String}

/-- Without a field for the name, nothing is registered for it. -/
theorem registerEmits_of_none {ds : List EmitDeclaration} (h : ∀ d ∈ ds, d.name = name → d.idempotencyKeyField = "") :
    registerEmits reg moduleName ds moduleName name = reg moduleName name := by
  induction ds generalizing reg with
  | nil => rfl
  | cons d ds ih =>
    obtain ⟨hd, hds⟩ := forall_mem_cons.mp h
    rw [registerEmits]
    split
    · exact ih hds
    · rename_i hfield
      rw [ih hds, if_neg]
      exact fun hname => hfield (hd hname.2.symm)

/-- With one field for the name, this is the one registered. -/
theorem registerEmits_of_field {ds : List EmitDeclaration} {field : String} (hfield : field ≠ "")
    (h : ∀ d ∈ ds, d.name = name → d.idempotencyKeyField = field)
    (hsome : (∃ d ∈ ds, d.name = name) ∨ reg moduleName name = some field) :
    registerEmits reg moduleName ds moduleName name = some field := by
  induction ds generalizing reg with
  | nil =>
    rcases hsome with ⟨d, hd, -⟩ | hreg
    · cases hd
    · exact hreg
  | cons d ds ih =>
    obtain ⟨hd, hds⟩ := forall_mem_cons.mp h
    rw [registerEmits]
    by_cases hname : d.name = name
    · rw [if_neg (by rw [hd hname]; exact hfield)]
      exact ih hds (.inr (by rw [if_pos ⟨rfl, hname.symm⟩, hd hname]))
    · have hrest : (∃ d ∈ ds, d.name = name) ∨ reg moduleName name = some field := by
        rcases hsome with ⟨d', hd', hd'name⟩ | hreg
        · rcases mem_cons.mp hd' with rfl | hd'
          · exact absurd hd'name hname
          · exact .inl ⟨d', hd', hd'name⟩
        · exact .inr hreg
      split
      · exact ih hds hrest
      · refine ih hds (hrest.imp_right fun hreg => ?_)
        rw [if_neg fun h => hname h.2.symm]
        exact hreg

/-- Where the versions of a name have one key field, the key of an emission is the declared one. -/
theorem idempotencyKey_eq {e : Emission UUID} (hone : OneField emits) (he : e.Declared emits) :
    e.idempotencyKey (registry emits) = e.declaredKey emits := by
  unfold Emission.idempotencyKey Emission.declaredKey
  split
  · obtain ⟨d₀, hd₀, hname₀, hversion₀⟩ := he
    cases hfind : (emits e.moduleName).find? fun d => d.name = e.name ∧ d.effectiveVersion = e.effectiveVersion with
    | none => exact absurd (find?_eq_none.mp hfind d₀ hd₀) (by simp [hname₀, hversion₀])
    | some d =>
      have hmem := mem_of_find?_eq_some hfind
      obtain ⟨hname, -⟩ : d.name = e.name ∧ d.effectiveVersion = e.effectiveVersion := by simpa using find?_some hfind
      have hall : ∀ d' ∈ emits e.moduleName, d'.name = e.name → d'.idempotencyKeyField = d.idempotencyKeyField :=
        fun d' hd' hname' => hone e.moduleName d' hd' d hmem (hname'.trans hname.symm)
      by_cases hfield : d.idempotencyKeyField = ""
      · rw [registry, registerEmits_of_none fun d' hd' hname' => (hall d' hd' hname').trans hfield]
        simp [hfield]
      · rw [registry, registerEmits_of_field hfield hall (.inl ⟨d, hmem, hname⟩)]
        simp [hfield]
  · rfl

/-! ## Ids -/

/-- No `|` where the name of the id is put together. -/
def Emission.NoBar (e : Emission UUID) : Prop := '|' ∉ e.tenantID.toList ∧ '|' ∉ e.name.toList

variable (reg) in
theorem deriveEventID_eq_iff (hinj : Function.Injective newSHA1UUID) {e e' : Emission UUID}
    (hkey : e.idempotencyKey reg ≠ "") (hkey' : e'.idempotencyKey reg ≠ "") (hbar : e.NoBar) (hbar' : e'.NoBar) :
    deriveEventID newSHA1UUID reg e = deriveEventID newSHA1UUID reg e' ↔
      e.tenantID = e'.tenantID ∧ e.name = e'.name ∧ e.idempotencyKey reg = e'.idempotencyKey reg := by
  rw [deriveEventID, deriveEventID, if_neg hkey, if_neg hkey']
  constructor
  · intro h
    have hname := hinj h
    have hsplit : ∀ a b c : String, a ++ "|" ++ b ++ "|" ++ c = a ++ "|" ++ (b ++ "|" ++ c) := by
      intro a b c
      simp only [String.append_assoc]
    -- read the text from the left: tenant, then event name, then key
    rw [hsplit, hsplit] at hname
    obtain ⟨htenant, hrest⟩ := join_inj '|' [] [] rfl not_mem_nil hbar.1 hbar'.1 hname
    obtain ⟨hn, hk⟩ := join_inj '|' [] [] rfl not_mem_nil hbar.2 hbar'.2 hrest
    exact ⟨htenant, hn, hk⟩
  · rintro ⟨ht, hn, hk⟩
    rw [ht, hn, hk]

/-- Without a clash, equal ids mean a repeat. -/
theorem deriveEventID_eq_iff_sameEvent (hinj : Function.Injective newSHA1UUID) {e e' : Emission UUID}
    (hone : OneField emits) (he : e.Declared emits) (he' : e'.Declared emits) (hkey : e.declaredKey emits ≠ "")
    (hkey' : e'.declaredKey emits ≠ "") (hbar : e.NoBar) (hbar' : e'.NoBar) (hclash : ¬ Clash emits e e') :
    deriveEventID newSHA1UUID (registry emits) e = deriveEventID newSHA1UUID (registry emits) e' ↔
      SameEvent emits e e' := by
  rw [← idempotencyKey_eq hone he] at hkey
  rw [← idempotencyKey_eq hone he'] at hkey'
  rw [deriveEventID_eq_iff _ hinj hkey hkey' hbar hbar', idempotencyKey_eq hone he, idempotencyKey_eq hone he']
  constructor
  · rintro ⟨ht, hn, hk⟩
    have hsame : ¬ (e.moduleName ≠ e'.moduleName ∨ e.effectiveVersion ≠ e'.effectiveVersion) := fun hd =>
      hclash ⟨ht, hn, hk, hd⟩
    rw [not_or, not_not, not_not] at hsame
    exact ⟨ht, hsame.1, hn, hsame.2, hk⟩
  · intro h
    exact ⟨h.tenantID, h.name, h.key⟩

section

variable [DecidableEq UUID] {job : DeliveryJob UUID} {queue : List (DeliveryJob UUID)}

theorem mem_enqueue_of_mem (e : Emission UUID) (h : job ∈ queue) : job ∈ enqueue newSHA1UUID reg queue e := by
  unfold enqueue
  split
  · exact h
  · exact mem_append_left _ h

/-- After the insertion there is a job with the id of the emission. -/
theorem exists_mem_enqueue (newSHA1UUID : String → UUID) (reg : EmitIdempotencyField) (queue : List (DeliveryJob UUID))
    (e : Emission UUID) : ∃ job ∈ enqueue newSHA1UUID reg queue e, job.eventID = deriveEventID newSHA1UUID reg e := by
  unfold enqueue
  split
  · rename_i h
    obtain ⟨job, hjob, hid⟩ := List.any_eq_true.mp h
    exact ⟨job, hjob, by simpa using hid⟩
  · exact ⟨_, mem_append_right _ (mem_singleton.mpr rfl), rfl⟩

theorem mem_enqueue {e : Emission UUID}
    (h : job ∈ enqueue newSHA1UUID reg queue e) : job ∈ queue ∨ job = ⟨deriveEventID newSHA1UUID reg e, e⟩ := by
  unfold enqueue at h
  split at h
  · exact .inl h
  · exact (mem_append.mp h).imp id mem_singleton.mp

theorem mem_foldl_enqueue_of_mem (es : List (Emission UUID))
    (h : job ∈ queue) : job ∈ es.foldl (enqueue newSHA1UUID reg) queue := by
  induction es generalizing queue with
  | nil => exact h
  | cons e es ih => exact ih (mem_enqueue_of_mem e h)

/-- Every emission finds a job with its id, its own or an earlier one. -/
theorem exists_mem_foldl_enqueue (newSHA1UUID : String → UUID) (reg : EmitIdempotencyField)
    (queue : List (DeliveryJob UUID)) {es : List (Emission UUID)} {e : Emission UUID} (he : e ∈ es) :
    ∃ job ∈ es.foldl (enqueue newSHA1UUID reg) queue, job.eventID = deriveEventID newSHA1UUID reg e := by
  induction es generalizing queue with
  | nil => cases he
  | cons e' es ih =>
    rcases mem_cons.mp he with rfl | he
    · obtain ⟨job, hjob, hid⟩ := exists_mem_enqueue newSHA1UUID reg queue e
      exact ⟨job, mem_foldl_enqueue_of_mem es hjob, hid⟩
    · exact ih (enqueue newSHA1UUID reg queue e') he

/-- A job carries one of the emissions, under its id. -/
theorem mem_foldl_enqueue {es : List (Emission UUID)} (h : job ∈ es.foldl (enqueue newSHA1UUID reg) queue) :
    job ∈ queue ∨ job.event ∈ es ∧ job.eventID = deriveEventID newSHA1UUID reg job.event := by
  induction es generalizing queue with
  | nil => exact .inl h
  | cons e es ih =>
    rcases ih h with hq | ⟨hmem, hid⟩
    · rcases mem_enqueue hq with hq | rfl
      · exact .inl hq
      · exact .inr ⟨mem_cons_self, rfl⟩
    · exact .inr ⟨mem_cons_of_mem _ hmem, hid⟩

/-- The module `sales` emits two versions of an event, with key fields of these names. -/
def salesEmits (first second moduleName : String) : List EmitDeclaration :=
  if moduleName = "sales" then [⟨⟨"order.confirmed", 1⟩, first⟩, ⟨⟨"order.confirmed", 2⟩, second⟩] else []

def confirmed (version : Int) (order invoice explicitKey : String) : Emission String where
  tenantID := "acme"
  moduleName := "sales"
  name := "order.confirmed"
  version
  payload := some [("order_id", some order), ("invoice_id", some invoice)]
  explicitKey
  newV7 := ""

/-- Two orders are confirmed and one of them again. -/
def twoOrders : List (Emission String) :=
  [confirmed 1 "a" "i" "", confirmed 1 "b" "i" "", confirmed 0 "c" "i" "a"]

theorem oneField_orders : OneField (salesEmits "order_id" "order_id") := by
  intro moduleName
  unfold salesEmits
  split
  · decide
  · intro d hd
    cases hd

end

end GoErp.Event
