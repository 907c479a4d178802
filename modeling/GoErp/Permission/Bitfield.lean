import Mathlib.Data.List.Basic
import Mathlib.Data.BitVec

/-!
# `Permission.Bitfield` — permission bits and their numbering

`PermissionBitfield` (`permission/bitfield.go`) is a list of 64-bit words, and `PermissionRegistry`
(`permission/permission.go`) gives each permission name its bit. A registry numbers names from 0 in the order
they are registered and never uses a number twice; both facts are fields of the structure.
-/

namespace GoErp.Permission

open List

/-! ## Bits -/

def bitsPerWord : Nat := 64

/-- `PermissionBitfield []uint64` -/
abbrev PermissionBitfield := List (BitVec 64)

/-- `1 << (idx % bitsPerWord)`. -/
def bitMask (idx : Nat) : BitVec 64 := BitVec.twoPow 64 (idx % bitsPerWord)

namespace PermissionBitfield

/-- The word at a position, 0 beyond the length. -/
def word (b : PermissionBitfield) (w : Nat) : BitVec 64 := b.getD w 0

/-- `Has`: a bit beyond the last word is not set. -/
def Has (b : PermissionBitfield) (idx : Nat) : Bool :=
  if b.length ≤ idx / bitsPerWord then false
  else b.word (idx / bitsPerWord) &&& bitMask idx != 0

/-- `b` grown to at least `n` words. -/
def grow (b : PermissionBitfield) (n : Nat) : PermissionBitfield :=
  b ++ List.replicate (n - b.length) 0

/-- `Set`, which grows the slice as needed. -/
def set (b : PermissionBitfield) (idx : Nat) : PermissionBitfield :=
  (b.grow (idx / bitsPerWord + 1)).modify (idx / bitsPerWord) (· ||| bitMask idx)

/-- `Or` -/
def or (b other : PermissionBitfield) : PermissionBitfield :=
  (b.grow other.length).mapIdx fun w bits => bits ||| other.word w

/-- `And`, whose result is as long as the receiver. -/
def and (b other : PermissionBitfield) : PermissionBitfield :=
  b.mapIdx fun w bits => if other.length ≤ w then 0 else bits &&& other.word w

variable {b other : PermissionBitfield} {idx i : Nat}

theorem word_eq (b : PermissionBitfield) (w : Nat) : b.word w = b[w]?.getD 0 := by
  rw [word, getD_eq_getElem?_getD]

theorem word_of_length_le {w : Nat} (h : b.length ≤ w) : b.word w = 0 := by
  rw [word_eq, getElem?_eq_none h]
  rfl

theorem length_grow (b : PermissionBitfield) (n : Nat) : (b.grow n).length = max b.length n := by
  unfold grow
  rw [length_append, length_replicate]
  omega

/-- Growing adds words that are zero. -/
theorem word_grow (b : PermissionBitfield) (n w : Nat) : (b.grow n).word w = b.word w := by
  by_cases hw : w < b.length
  · rw [word_eq, word_eq, grow, getElem?_append_left hw]
  rw [word_of_length_le (b := b) (by omega), word_eq, grow, getElem?_append_right (by omega),
    getElem?_replicate]
  split <;> rfl

/-- Setting a bit changes its word only. -/
theorem word_set (b : PermissionBitfield) (idx w : Nat) :
    (b.set idx).word w = if w = idx / bitsPerWord then b.word w ||| bitMask idx else b.word w := by
  have hgrow := word_grow b (idx / bitsPerWord + 1) w
  rw [word_eq] at hgrow
  rw [word_eq, set, getElem?_modify]
  by_cases hw : w = idx / bitsPerWord
  · have hlt : w < (b.grow (idx / bitsPerWord + 1)).length := by
      rw [length_grow]
      omega
    rw [getElem?_eq_getElem hlt] at hgrow ⊢
    rw [if_pos hw, ← hgrow]
    simp only [Option.map_eq_map, Option.map_some, Option.getD_some, if_pos hw.symm]
  · rw [if_neg hw, ← hgrow]
    simp [Ne.symm hw]

variable (b other : PermissionBitfield)

theorem word_or (w : Nat) : (b.or other).word w = b.word w ||| other.word w := by
  rw [← word_grow b other.length w, word_eq, or, getElem?_mapIdx, word_eq (b.grow other.length)]
  by_cases hw : w < (b.grow other.length).length
  · rw [getElem?_eq_getElem hw]
    rfl
  have hother : other.word w = 0 := by
    rw [length_grow] at hw
    exact word_of_length_le (by omega)
  rw [getElem?_eq_none (by omega), hother]
  rfl

theorem word_and (w : Nat) : (b.and other).word w = b.word w &&& other.word w := by
  rw [word_eq, and, getElem?_mapIdx, word_eq b]
  by_cases hw : w < b.length
  · rw [getElem?_eq_getElem hw]
    by_cases ho : other.length ≤ w
    · simp [ho, word_of_length_le ho]
    · simp [ho]
  · rw [getElem?_eq_none (by omega)]
    simp

theorem mod_lt_word (idx : Nat) : idx % bitsPerWord < 64 := Nat.mod_lt _ (by decide)

/-- A bit is the bit of its word. -/
theorem has_iff (b : PermissionBitfield) (idx : Nat) :
    b.Has idx = true ↔ (b.word (idx / bitsPerWord)).getLsbD (idx % bitsPerWord) = true := by
  have hlt := mod_lt_word idx
  have hnonzero : bitMask idx ≠ 0 := by
    intro hzero
    have hbit := congrArg (fun x => x.getLsbD (idx % bitsPerWord)) hzero
    simp [bitMask, hlt] at hbit
  unfold Has
  split
  · rename_i hle
    rw [word_of_length_le hle]
    simp
  unfold bitMask at hnonzero ⊢
  rw [BitVec.and_twoPow]
  cases (b.word (idx / bitsPerWord)).getLsbD (idx % bitsPerWord) with
  | false => simp
  | true => simpa using hnonzero

/-- Two indexes with the same word and the same bit are one index. -/
theorem eq_of_div_mod (hw : i / bitsPerWord = idx / bitsPerWord) (hb : i % bitsPerWord = idx % bitsPerWord) :
    i = idx := by
  rw [← Nat.div_add_mod i bitsPerWord, hw, hb, Nat.div_add_mod]

/-- The bits after `Set`. -/
theorem has_set (b : PermissionBitfield) (idx i : Nat) : (b.set idx).Has i = true ↔ i = idx ∨ b.Has i = true := by
  rw [has_iff, has_iff, word_set]
  by_cases hi : i = idx
  · subst hi
    simp [bitMask, mod_lt_word]
  by_cases hw : i / bitsPerWord = idx / bitsPerWord
  · have hb : idx % bitsPerWord ≠ i % bitsPerWord := fun hb => hi (eq_of_div_mod hw hb.symm)
    simp [hw, hi, bitMask, hb]
  · simp [hw, hi]

/-- The bits of a union. -/
theorem has_or (i : Nat) : (b.or other).Has i = true ↔ b.Has i = true ∨ other.Has i = true := by
  rw [has_iff, has_iff, has_iff, word_or, BitVec.getLsbD_or, Bool.or_eq_true]

/-- The bits of an intersection. -/
theorem has_and (i : Nat) : (b.and other).Has i = true ↔ b.Has i = true ∧ other.Has i = true := by
  rw [has_iff, has_iff, has_iff, word_and, BitVec.getLsbD_and, Bool.and_eq_true]

end PermissionBitfield

/-! ## Numbers -/

/-- `PermissionRegistry`. `ModulePermissions`, which no check reads, is left out. -/
structure PermissionRegistry where
  indices : String → Option Nat
  nextIdx : Nat
  lt_nextIdx : ∀ name i, indices name = some i → i < nextIdx
  /-- no number is given twice -/
  injective : ∀ name name' i, indices name = some i → indices name' = some i → name = name'

namespace PermissionRegistry

def new : PermissionRegistry where
  indices _ := none
  nextIdx := 0
  lt_nextIdx := by simp
  injective := by simp

/-- The next number, given to a name. -/
def assign (r : PermissionRegistry) (name : String) : PermissionRegistry where
  indices n := if n = name then some r.nextIdx else r.indices n
  nextIdx := r.nextIdx + 1
  lt_nextIdx n i hi := by
    split at hi
    · cases hi
      omega
    · have := r.lt_nextIdx n i hi
      omega
  injective n n' i hn hn' := by
    -- the next number is above every number given so far
    split at hn <;> split at hn'
    · simp_all
    · cases hn
      exact absurd (r.lt_nextIdx n' _ hn') (by omega)
    · cases hn'
      exact absurd (r.lt_nextIdx n _ hn) (by omega)
    · exact r.injective n n' i hn hn'

/-- `Register`: the names without a number get the next ones, in order. -/
def Register (r : PermissionRegistry) : List String → PermissionRegistry
  | [] => r
  | name :: names =>
    -- a name that has a number keeps it
    if (r.indices name).isSome then r.Register names else (r.assign name).Register names

def Index (r : PermissionRegistry) (name : String) : Option Nat := r.indices name

end PermissionRegistry

/-- `manage_view_overrides`, the engine's own permission. -/
def ManageViewOverrides : String := "engine.manage_view_overrides"

def Builtin : List String := [ManageViewOverrides]

/-- A loaded module, as far as the numbering reads it. -/
structure LoadedModule where
  name : String
  failed : Bool
  permissions : List String

/-- `buildPermissionRegistry`. The source ranges over a map; the list is the order it happens to take. -/
def buildPermissionRegistry (modules : List LoadedModule) : PermissionRegistry :=
  modules.foldl (fun reg m => if m.failed then reg else reg.Register m.permissions)
    (PermissionRegistry.new.Register Builtin)

end GoErp.Permission
