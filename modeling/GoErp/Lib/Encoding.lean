import Mathlib.Data.List.Basic
import Mathlib.Data.List.TakeWhile
import Mathlib.Logic.Function.Basic

/-!
# `Lib.Encoding` — texts as code units

Two programs that read the same text one unit at a time, one in UTF-16 and one in UTF-8, see the same ASCII
characters; what lies between is made of units that no ASCII character has. `Encoding` says just that, so a scan
which only asks for classes of ASCII characters (`Decides`) stops at the same character in every encoding
(`Decides.split`).
-/

namespace GoErp.Lib

open List

/-- An encoding that extends ASCII. -/
structure Encoding (α : Type) where
  encode : Char → List α
  unit : Char → α
  ascii : ∀ {c : Char}, c.toNat < 128 → encode c = [unit c]
  unit_inj : ∀ {c d : Char}, c.toNat < 128 → d.toNat < 128 → unit c = unit d → c = d
  other : ∀ {c : Char}, 128 ≤ c.toNat → encode c ≠ [] ∧ ∀ u ∈ encode c, ∀ d : Char, d.toNat < 128 → u ≠ unit d
  inj : Function.Injective fun s : List Char => s.flatMap encode

namespace Encoding

variable {α : Type} (E : Encoding α)

/-- The units of a text. -/
def text (s : List Char) : List α := s.flatMap E.encode

theorem text_cons (c : Char) (s : List Char) : E.text (c :: s) = E.encode c ++ E.text s := rfl

/-- Texts are encoded piece by piece. -/
theorem text_append (s t : List Char) : E.text (s ++ t) = E.text s ++ E.text t := flatMap_append

theorem text_cons_ascii {c : Char} (h : c.toNat < 128) (s : List Char) : E.text (c :: s) = E.unit c :: E.text s := by
  rw [text_cons, E.ascii h]
  rfl

theorem text_ascii {w : List Char} (h : ∀ c ∈ w, c.toNat < 128) : E.text w = w.map E.unit := by
  induction w with
  | nil => rfl
  | cons c w ih =>
    rw [text_cons_ascii E (h c mem_cons_self), ih fun d hd => h d (mem_cons_of_mem c hd), map_cons]

/-- Different texts have different units. -/
theorem text_inj {s t : List Char} : E.text s = E.text t ↔ s = t := E.inj.eq_iff

/-- A text that is not empty begins with an ASCII character or with a unit that is none. -/
theorem text_cons_cases (c : Char) (s : List Char) : (c.toNat < 128 ∧ E.text (c :: s) = E.unit c :: E.text s) ∨
      ∃ u us, E.text (c :: s) = u :: us ∧ ∀ d : Char, d.toNat < 128 → u ≠ E.unit d := by
  by_cases hc : c.toNat < 128
  · exact .inl ⟨hc, E.text_cons_ascii hc s⟩
  obtain ⟨hne, hother⟩ := E.other (Nat.le_of_not_lt hc)
  obtain ⟨u, us, hencode⟩ := exists_cons_of_ne_nil hne
  refine .inr ⟨u, us ++ E.text s, by rw [text_cons, hencode]; rfl, hother u ?_⟩
  rw [hencode]
  exact mem_cons_self

/-- The units of the ASCII characters in a class are those that `q` accepts. -/
structure Decides (p : Char → Bool) (q : α → Bool) : Prop where
  ascii : ∀ {c : Char}, c.toNat < 128 → q (E.unit c) = p c
  other : ∀ {c : Char}, 128 ≤ c.toNat → p c = false ∧ ∀ u ∈ E.encode c, q u = false

variable {E} {p : Char → Bool} {q : α → Bool}

/-- A scan takes the same characters and leaves the same. -/
theorem Decides.split (h : E.Decides p q) (s : List Char) :
    (E.text s).takeWhile q = E.text (s.takeWhile p) ∧ (E.text s).dropWhile q = E.text (s.dropWhile p) := by
  induction s with
  | nil => exact ⟨rfl, rfl⟩
  | cons c s ih =>
    by_cases hc : c.toNat < 128
    · rw [E.text_cons_ascii hc]
      by_cases hp : p c = true
      · have hq : q (E.unit c) = true := (h.ascii hc).trans hp
        rw [takeWhile_cons_of_pos hq, dropWhile_cons_of_pos hq, takeWhile_cons_of_pos hp,
          dropWhile_cons_of_pos hp, E.text_cons_ascii hc, ih.1, ih.2]
        exact ⟨rfl, rfl⟩
      have hq : ¬ q (E.unit c) = true := by rwa [h.ascii hc]
      rw [takeWhile_cons_of_neg hq, dropWhile_cons_of_neg hq, takeWhile_cons_of_neg hp,
        dropWhile_cons_of_neg hp, E.text_cons_ascii hc]
      exact ⟨rfl, rfl⟩
    · -- the scan stops at the first unit of any other character
      have hc' := Nat.le_of_not_lt hc
      obtain ⟨hp, hunits⟩ := h.other hc'
      obtain ⟨u, us, hencode⟩ := exists_cons_of_ne_nil (E.other hc').1
      have hq : ¬ q u = true := by
        rw [hunits u (hencode ▸ mem_cons_self)]
        exact Bool.false_ne_true
      have hp' : ¬ p c = true := by
        rw [hp]
        exact Bool.false_ne_true
      rw [takeWhile_cons_of_neg hp', dropWhile_cons_of_neg hp', text_cons, hencode, cons_append,
        takeWhile_cons_of_neg hq, dropWhile_cons_of_neg hq]
      exact ⟨rfl, rfl⟩

/-- A text that begins with the unit of an ASCII character begins with the character. -/
theorem eq_cons_of_head? {s : List Char} {d : Char} (hd : d.toNat < 128) (h : (E.text s).head? = some (E.unit d)) :
    ∃ s', s = d :: s' ∧ (E.text s).tail = E.text s' := by
  cases s with
  | nil => cases h
  | cons c s =>
    rcases E.text_cons_cases c s with ⟨hc, htext⟩ | ⟨u, us, htext, hu⟩
    · rw [htext] at h ⊢
      exact ⟨s, by rw [E.unit_inj hc hd (Option.some.inj h)], rfl⟩
    · rw [htext] at h
      exact absurd (Option.some.inj h) (hu d hd)

end Encoding

variable {c : Char}

/-- What holds of the 128 ASCII characters, by their codes. -/
theorem ascii_forall {P : Char → Prop} (h : ∀ n : Fin 128, P (Char.ofNat n)) (hc : c.toNat < 128) : P c := by
  have hn := h ⟨c.toNat, hc⟩
  rwa [Char.ofNat_toNat] at hn

/-! ## UTF-16 -/

/-- The code units of a character. -/
def utf16Encode (c : Char) : List UInt16 :=
  if c.toNat < 0x10000 then [UInt16.ofNat c.toNat]
  else [UInt16.ofNat (0xD800 + (c.toNat - 0x10000) / 0x400), UInt16.ofNat (0xDC00 + (c.toNat - 0x10000) % 0x400)]

/-- Characters are no surrogates. -/
theorem char_range (c : Char) : c.toNat < 0xD800 ∨ (0xDFFF < c.toNat ∧ c.toNat < 0x110000) := c.valid

theorem ofNat16_inj {m n : Nat} (hm : m < 65536) (hn : n < 65536) (h : UInt16.ofNat m = UInt16.ofNat n) : m = n := by
  have hnat := congrArg UInt16.toNat h
  rwa [UInt16.toNat_ofNat_of_lt' hm, UInt16.toNat_ofNat_of_lt' hn] at hnat

/-- No code of a character is the beginning of another's. -/
theorem utf16Encode_cancel {d : Char} {s t : List UInt16} (h : utf16Encode c ++ s = utf16Encode d ++ t) :
    c = d ∧ s = t := by
  have hc := char_range c
  have hd := char_range d
  unfold utf16Encode at h
  split at h <;> split at h
  · obtain ⟨hu, hst⟩ := List.cons.inj h
    exact ⟨Char.toNat_inj.mp (ofNat16_inj (by omega) (by omega) hu), hst⟩
  · -- a surrogate is no character
    have hu := ofNat16_inj (by omega) (by omega) (List.cons.inj h).1
    omega
  · have hu := ofNat16_inj (by omega) (by omega) (List.cons.inj h).1
    omega
  obtain ⟨hhigh, h⟩ := List.cons.inj h
  obtain ⟨hlow, hst⟩ := List.cons.inj h
  have hhigh := ofNat16_inj (by omega) (by omega) hhigh
  have hlow := ofNat16_inj (by omega) (by omega) hlow
  exact ⟨Char.toNat_inj.mp (by omega), hst⟩

theorem utf16Encode_ne_nil (c : Char) : utf16Encode c ≠ [] := by
  unfold utf16Encode
  split <;> simp

theorem le_of_mem_utf16Encode (hc : 128 ≤ c.toNat) {u : UInt16} (hu : u ∈ utf16Encode c) : 128 ≤ u.toNat := by
  have hrange := char_range c
  have hunit : ∀ {n : Nat}, u = UInt16.ofNat n → n < 65536 → u.toNat = n := by
    rintro n rfl hn
    exact UInt16.toNat_ofNat_of_lt' hn
  unfold utf16Encode at hu
  split at hu
  · rw [hunit (mem_singleton.mp hu) (by omega)]
    exact hc
  · rcases mem_pair.mp hu with hu | hu <;> rw [hunit hu (by omega)] <;> omega

/-- UTF-16, with a surrogate pair for a character beyond the first plane. -/
def utf16 : Encoding UInt16 where
  encode := utf16Encode
  unit c := UInt16.ofNat c.toNat
  ascii h := if_pos (by omega)
  unit_inj hc hd h := Char.toNat_inj.mp (ofNat16_inj (by omega) (by omega) h)
  other {c} hc := by
    refine ⟨utf16Encode_ne_nil c, fun u hu d hd heq => ?_⟩
    have hle := le_of_mem_utf16Encode hc hu
    rw [heq, UInt16.toNat_ofNat_of_lt' (Nat.lt_trans hd (by decide))] at hle
    omega
  inj := by
    intro s
    induction s with
    | nil =>
      intro t h
      cases t with
      | nil => rfl
      | cons d t => exact absurd (append_eq_nil_iff.mp h.symm).1 (utf16Encode_ne_nil d)
    | cons c s ih =>
      intro t h
      cases t with
      | nil => exact absurd (append_eq_nil_iff.mp h).1 (utf16Encode_ne_nil c)
      | cons d t =>
        obtain ⟨rfl, hst⟩ := utf16Encode_cancel h
        rw [ih hst]

/-- A class of ASCII characters is a class of units. -/
theorem utf16_decides {p : Char → Bool} {q : UInt16 → Bool}
    (hascii : ∀ n : Fin 128, q (UInt16.ofNat n) = p (Char.ofNat n)) (hp : ∀ c : Char, 128 ≤ c.toNat → p c = false)
    (hq : ∀ u : UInt16, 128 ≤ u.toNat → q u = false) : utf16.Decides p q where
  ascii {c} hc := by
    have hn := hascii ⟨c.toNat, hc⟩
    rwa [Char.ofNat_toNat] at hn
  other hc := ⟨hp _ hc, fun u hu => hq u (le_of_mem_utf16Encode hc hu)⟩

/-! ## UTF-8 -/

/-- A byte as the character with its code. -/
def byteChar (b : UInt8) : Char := Char.ofNat b.toNat

theorem toNat_byteChar (b : UInt8) : (byteChar b).toNat = b.toNat := by
  have hlt := b.toNat_lt
  rw [byteChar, Char.ofNat, dif_pos (Or.inl (by omega))]
  rfl

theorem byteChar_injective : Function.Injective byteChar := by
  intro a b h
  apply UInt8.toNat_inj.mp
  rw [← toNat_byteChar a, h, toNat_byteChar b]

/-- The bytes of a character, each as a character. -/
def utf8Encode (c : Char) : List Char := (String.utf8EncodeChar c).map byteChar

/-- Every byte of another character has its highest bit set. -/
theorem le_of_mem_utf8EncodeChar (hc : 128 ≤ c.toNat) {b : UInt8} (hb : b ∈ String.utf8EncodeChar c) :
    128 ≤ b.toNat := by
  have hbyte : ∀ {n : Nat}, b = UInt8.ofNat n → n < 256 → b.toNat = n := by
    rintro n rfl hn
    exact UInt8.toNat_ofNat_of_lt' hn
  have hv : 128 ≤ c.val.toNat := hc
  unfold String.utf8EncodeChar at hb
  simp only at hb
  rw [if_neg (by omega)] at hb
  split at hb
  · simp only [mem_cons, not_mem_nil, or_false] at hb
    rcases hb with hb | hb <;> rw [hbyte hb (by omega)] <;> omega
  split at hb
  · simp only [mem_cons, not_mem_nil, or_false] at hb
    rcases hb with hb | hb | hb <;> rw [hbyte hb (by omega)] <;> omega
  · simp only [mem_cons, not_mem_nil, or_false] at hb
    rcases hb with hb | hb | hb | hb <;> rw [hbyte hb (by omega)] <;> omega

theorem utf8Encode_ascii (h : c.toNat < 128) : utf8Encode c = [c] := by
  have hv : c.val.toNat ≤ 127 := Nat.le_of_lt_succ h
  have hbyte : byteChar (UInt8.ofNat c.val.toNat) = c := by
    apply Char.toNat_inj.mp
    rw [toNat_byteChar, UInt8.toNat_ofNat_of_lt' (Nat.lt_of_le_of_lt hv (by decide))]
    rfl
  rw [utf8Encode, String.utf8EncodeChar]
  simp only [if_pos hv, map_cons, map_nil, hbyte]

/-- UTF-8, with bytes for units. -/
def utf8 : Encoding Char where
  encode := utf8Encode
  unit c := c
  ascii h := utf8Encode_ascii h
  unit_inj _ _ h := h
  other {c} hc := by
    constructor
    · intro hnil
      have hlen := String.length_utf8EncodeChar c
      rw [map_eq_nil_iff.mp hnil] at hlen
      exact absurd hlen.symm (Nat.ne_of_gt c.utf8Size_pos)
    intro u hu d hd heq
    obtain ⟨b, hb, rfl⟩ := mem_map.mp hu
    have hle := le_of_mem_utf8EncodeChar hc hb
    rw [← heq, toNat_byteChar] at hd
    omega
  inj := by
    intro s t h
    have hmap : (s.flatMap String.utf8EncodeChar).map byteChar = (t.flatMap String.utf8EncodeChar).map byteChar := by
      rw [map_flatMap, map_flatMap]
      exact h
    have hbytes := map_injective_iff.mpr byteChar_injective hmap
    have hstring : (String.ofList s).toByteArray = (String.ofList t).toByteArray := by
      rw [String.toByteArray_ofList, String.toByteArray_ofList, List.utf8Encode, List.utf8Encode, hbytes]
    exact String.ofList_injective (String.toByteArray_inj.mp hstring)

theorem utf8_decides {p : Char → Bool} (hp : ∀ c : Char, 128 ≤ c.toNat → p c = false) : utf8.Decides p p where
  ascii _ := rfl
  other {c} hc := by
    refine ⟨hp c hc, fun u hu => ?_⟩
    obtain ⟨b, hb, rfl⟩ := mem_map.mp hu
    exact hp _ (by rw [toNat_byteChar]; exact le_of_mem_utf8EncodeChar hc hb)

end GoErp.Lib
