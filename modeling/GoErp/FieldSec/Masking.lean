import GoErp.Lib.Rewrite
import GoErp.Permission.Bitfield

/-!
# `FieldSec.Masking` — what a masked record shows

`applyFieldMasking` (`wasm/host_orm.go`) drops what the model does not declare and omits, clears or masks what the
caller may not read. A pattern is expanded by three passes, each over the result of the one before, so a pass can make
a token that the pattern does not have: `{last{length}}` is `{last4}` for a value of four bytes. Nothing else leaks
(`revealsNothing_iff`).
-/

namespace GoErp.FieldSec

open Lib.Rewrite Permission List

/-- A Go string, with a character for each byte. -/
abbrev Bytes := List Char

/-- A value of a record; `O` are those that are not strings. -/
inductive Value (O : Type) where
  | nil
  | str (s : Bytes)
  | other (o : O)
  deriving DecidableEq

inductive ReadBehaviour where
  | Omit
  | Nullify
  | Mask

/-- `FieldSecurityRule`, as far as reading goes. -/
structure FieldSecurityRule where
  readPermission : String
  onDeniedRead : ReadBehaviour
  maskPattern : Bytes

structure ModuleContext where
  unmaskedReads : Bool
  permissionSet : PermissionBitfield
  permissionRegistry : Option PermissionRegistry
  /-- `Rule`, by model and field -/
  fieldSecRegistry : Option (String → String → Option FieldSecurityRule)
  /-- `resolveReadableModel`: the fields of a model -/
  resolveReadableModel : String → Option (List String)

abbrev Record (O : Type) := List (String × Value O)

variable {O : Type} (mc : ModuleContext) (model : String)

/-- A name the registry does not know, or no registry, is a permission nobody has. -/
def callerHasPermission (name : String) : Bool :=
  match mc.permissionRegistry with
  | none => false
  | some reg =>
    match reg.Index name with
    | none => false
    | some idx => mc.permissionSet.Has idx

/-- A rule without a read permission masks nothing. -/
def fieldReadAllowed (rule : FieldSecurityRule) : Bool :=
  mc.unmaskedReads || rule.readPermission == "" || callerHasPermission mc rule.readPermission

def lengthToken : Bytes := "\x7blength\x7d".toList

def last4Token : Bytes := "\x7blast4\x7d".toList

def first2Token : Bytes := "\x7bfirst2\x7d".toList

def last4 (s : Bytes) : Bytes := if 4 < s.length then s.drop (s.length - 4) else s

def first2 (s : Bytes) : Bytes := if 2 < s.length then s.take 2 else s

/-- The pattern after the first pass, for a value of so many bytes. -/
def withLength (pattern : Bytes) (n : Nat) : Bytes := replaceAll lengthToken (Nat.toDigits 10 n) pattern

/-- The pattern after the second pass. -/
def withLast4 (pattern s : Bytes) : Bytes := replaceAll last4Token (last4 s) (withLength pattern s.length)

/-- The tokens of a pattern are filled in for a string; any other value gives the pattern as it is. -/
def applyMaskPattern (pattern : Bytes) : Value O → Bytes
  | .str s => replaceAll first2Token (first2 s) (withLast4 pattern s)
  | _ => pattern

/-- The rule that denies a field to the caller. -/
def denied (name : String) : Option FieldSecurityRule := do
  let reg ← mc.fieldSecRegistry
  let rule ← reg model name
  if fieldReadAllowed mc rule then none else some rule

/-- What becomes of an entry: the loop changes no entry but the one it is at. -/
def maskEntry (x : String × Value O) : Option (String × Value O) :=
  match denied mc model x.1 with
  | none => some x
  | some rule =>
    match rule.onDeniedRead with
    | .Mask => some (x.1, .str (applyMaskPattern rule.maskPattern x.2))
    | .Nullify => some (x.1, .nil)
    | .Omit => none

def declared (name : String) : Bool := (mc.resolveReadableModel model).all fun md => name ∈ md

/-- Undeclared fields are dropped and the others pass through their rule. -/
def applyFieldMasking (records : List (Record O)) : List (Record O) :=
  records.map fun record => (record.filter fun x => declared mc model x.1).filterMap (maskEntry mc model)

/-! ## Two runs -/

/-- Values that agree in what the tokens of a pattern show. -/
inductive Agree (pattern : Bytes) : Value O → Value O → Prop where
  | other {v w} : (∀ s, v ≠ .str s) → (∀ s, w ≠ .str s) → Agree pattern v w
  | str {s t} : (lengthToken <:+: pattern → s.length = t.length) → (last4Token <:+: pattern → last4 s = last4 t) →
      (first2Token <:+: pattern → first2 s = first2 t) → Agree pattern (.str s) (.str t)

/-- Entries that the caller should not tell apart. -/
inductive Alike : String × Value O → String × Value O → Prop where
  | same {x} : Alike x x
  | undeclared {name v w} : declared mc model name = false → Alike (name, v) (name, w)
  | denied {name v w rule} : denied mc model name = some rule →
      (rule.onDeniedRead = .Mask → Agree rule.maskPattern v w) → Alike (name, v) (name, w)

/-- Records that the caller should not tell apart are masked to the same. -/
def RevealsNothing (O : Type) : Prop := ∀ records records' : List (Record O),
  List.Forall₂ (List.Forall₂ (Alike mc model)) records records' →
    applyFieldMasking mc model records = applyFieldMasking mc model records'

/-- No pass makes a token that shows more than the pattern does. -/
structure Tame (pattern : Bytes) : Prop where
  noLast4 : last4Token <:+: withLength pattern 4 → last4Token <:+: pattern
  noFirst2 : first2Token <:+: withLength pattern 2 → first2Token <:+: pattern ∨ last4Token <:+: pattern
  /-- `{f{last4}2}` makes a token of a value that ends in `irst` -/
  longer : ∀ s : Bytes, 4 < s.length → first2Token <:+: withLast4 pattern s → first2Token <:+: pattern

/-! ## The passes -/

variable {p s t : Bytes}

/-- A token with one digit is made by the first pass only where the length is that digit. -/
theorem length_of_made {token : Bytes} {d : Char} {n k : Nat} (hk : Nat.toDigits 10 k = [d])
    (hhead : token.head?.all (!Char.isDigit ·) = true)
    (hdigit : ∀ u ∈ token.tails, u.head?.any Char.isDigit = true → u = [d, '\x7d'])
    (h : token <:+: withLength p n) (hp : ¬ token <:+: p) (hne : token ≠ []) : n = k := by
  have hdigits : ∀ c ∈ Nat.toDigits 10 n, c.isDigit = true := fun c hc =>
    Nat.isDigit_of_mem_toDigits (by omega) (by omega) hc
  by_contra hnk
  have hd : Nat.toDigits 10 n ≠ [d] := fun hd => hnk <| by
    rw [← Nat.ofDigitChars_toDigits (b := 10) (n := n) (by decide) (by decide), hd, ← hk]
    exact Nat.ofDigitChars_toDigits (by decide) (by decide)
  refine hp (infix_of_replaceAll (by decide) (fun r' w hr' hnil hpre => ?_) (fun u w hu hnil hpre => ?_) h)
  · obtain ⟨x, r', rfl⟩ := exists_cons_of_ne_nil hnil
    obtain ⟨y, token, rfl⟩ := exists_cons_of_ne_nil hne
    obtain ⟨rfl, -⟩ := cons_prefix_cons.mp hpre
    simp [hdigits y (hr'.subset mem_cons_self)] at hhead
  obtain ⟨x, ds, hds⟩ := exists_cons_of_ne_nil (Nat.toDigits_ne_nil (n := n) (b := 10))
  obtain ⟨y, u, rfl⟩ := exists_cons_of_ne_nil hnil
  rw [hds] at hpre hdigits hd
  obtain ⟨rfl, htail⟩ := cons_prefix_cons.mp hpre
  have hu := hdigit _ ((mem_tails _ _).mpr hu) (by simpa using hdigits y mem_cons_self)
  obtain ⟨rfl, rfl⟩ := List.cons.inj hu
  cases ds with
  | nil => exact hd rfl
  | cons z ds =>
    obtain ⟨rfl, -⟩ := cons_prefix_cons.mp htail
    exact absurd (hdigits _ (mem_cons_of_mem _ mem_cons_self)) (by decide)

theorem Tame.last4_of_made {n : Nat} (htame : Tame p) (h : last4Token <:+: withLength p n) : last4Token <:+: p := by
  by_contra hp
  obtain rfl : n = 4 := length_of_made rfl (by decide) (by decide) h hp (by decide)
  exact hp (htame.noLast4 h)

/-- A tame pattern shows what its tokens do. -/
theorem Tame.mask_eq (htame : Tame p) (hlength : lengthToken <:+: p → s.length = t.length)
    (hlast : last4Token <:+: p → last4 s = last4 t) (hfirst : first2Token <:+: p → first2 s = first2 t) :
    applyMaskPattern (O := O) p (.str s) = applyMaskPattern (O := O) p (.str t) := by
  have h₁ : withLength p s.length = withLength p t.length := by
    by_cases h : lengthToken <:+: p
    · rw [hlength h]
    · rw [withLength, withLength, replaceAll_absent h, replaceAll_absent h]
  have h₂ : withLast4 p s = withLast4 p t := by
    unfold withLast4
    rw [h₁]
    by_cases h : last4Token <:+: withLength p t.length
    · rw [hlast (htame.last4_of_made h)]
    · rw [replaceAll_absent h, replaceAll_absent h]
  rw [applyMaskPattern, applyMaskPattern, h₂]
  by_cases h : first2Token <:+: withLast4 p t
  · by_cases hp : first2Token <:+: p
    · rw [hfirst hp]
    have hshort : ∀ u, first2Token <:+: withLast4 p u → last4 u = u := fun u hu =>
      if_neg fun hlt => hp (htame.longer u hlt hu)
    by_cases hA : last4Token <:+: p
    · -- both values are shorter than what the second token shows
      have heq := hlast hA
      rw [hshort s (h₂ ▸ h), hshort t h] at heq
      rw [heq]
    rw [withLast4, replaceAll_absent fun hmade => hA (htame.last4_of_made hmade)] at h
    have htwo : t.length = 2 := length_of_made rfl (by decide) (by decide) h hp (by decide)
    rw [htwo] at h
    exact absurd (htame.noFirst2 h) (by simp [hp, hA])
  · rw [replaceAll_absent h, replaceAll_absent h]

/-- What the last two passes add of a character that no token has. -/
theorem exists_shown (p s : Bytes) : ∃ a b, (last4Token <:+: withLength p s.length → 0 < a) ∧
    (first2Token <:+: withLast4 p s → 0 < b) ∧ (applyMaskPattern (O := O) p (.str s)).count 'y' =
      (withLength p s.length).count 'y' + a * (last4 s).count 'y' + b * (first2 s).count 'y' := by
  obtain ⟨a, ha, hcount⟩ := exists_count (t := last4Token) (by decide) (withLength p s.length)
  obtain ⟨b, hb, hcount'⟩ := exists_count (t := first2Token) (by decide) (withLast4 p s)
  refine ⟨a, b, ha, hb, ?_⟩
  rw [applyMaskPattern, hcount' _ _ (by decide), withLast4, hcount _ _ (by decide)]

/-- A value is told apart from one without a `y` by a token that shows one. -/
theorem mask_ne (hlength : s.length = t.length) (hs : (last4 s).count 'y' = 0 ∧ (first2 s).count 'y' = 0)
    (ht : last4Token <:+: withLength p t.length ∧ 0 < (last4 t).count 'y' ∨
      first2Token <:+: withLast4 p t ∧ 0 < (first2 t).count 'y') :
    applyMaskPattern (O := O) p (.str s) ≠ applyMaskPattern (O := O) p (.str t) := by
  intro heq
  obtain ⟨a, b, -, -, hx⟩ := exists_shown (O := O) p s
  obtain ⟨a', b', ha', hb', hy⟩ := exists_shown (O := O) p t
  rw [heq, hy, hlength, hs.1, hs.2] at hx
  rcases ht with ⟨hmade, hpos⟩ | ⟨hmade, hpos⟩
  · have := Nat.mul_pos (ha' hmade) hpos
    omega
  · have := Nat.mul_pos (hb' hmade) hpos
    omega

/-- A pattern that is not tame tells values apart. -/
theorem tame_of_mask_eq (h : ∀ s t : Bytes, (lengthToken <:+: p → s.length = t.length) →
    (last4Token <:+: p → last4 s = last4 t) → (first2Token <:+: p → first2 s = first2 t) →
      applyMaskPattern (O := O) p (.str s) = applyMaskPattern (O := O) p (.str t)) : Tame p := by
  refine ⟨fun hmade => ?_, fun hmade => ?_, fun s hs hmade => ?_⟩
  · by_contra hA
    have heq := h ['x', 'x', 'x', 'x'] ['x', 'x', 'y', 'y'] (fun _ => rfl) (fun hin => absurd hin hA) (fun _ => rfl)
    exact absurd heq (mask_ne rfl (by decide) (.inl ⟨hmade, by decide⟩))
  · by_contra hp
    obtain ⟨hF, hA⟩ := not_or.mp hp
    have heq := h ['x', 'x'] ['y', 'y'] (fun _ => rfl) (fun hin => absurd hin hA) (fun hin => absurd hin hF)
    refine absurd heq (mask_ne rfl (by decide) ?_)
    by_cases hin : last4Token <:+: withLength p 2
    · exact .inl ⟨hin, by decide⟩
    refine .inr ⟨?_, by decide⟩
    change first2Token <:+: replaceAll last4Token _ (withLength p 2)
    rwa [replaceAll_absent hin]
  · by_contra hF
    -- the first byte is shown by nothing but the token that was made
    obtain ⟨c, s, rfl⟩ := exists_cons_of_ne_nil (ne_nil_of_length_pos (by omega : 0 < s.length))
    have hlast : ∀ d, last4 (d :: s) = last4 (c :: s) := fun d => by
      have hlt : ∀ d, 4 < (d :: s).length := fun _ => hs
      rw [last4, last4, if_pos (hlt d), if_pos (hlt c), length_cons, length_cons]
      rw [show s.length + 1 - 4 = s.length - 4 + 1 by rw [length_cons] at hs; omega]
      rfl
    have hsame : ∀ d, withLast4 p (d :: s) = withLast4 p (c :: s) := fun d => by
      unfold withLast4
      rw [hlast]
      rfl
    have heq := h ('x' :: s) ('y' :: s) (fun _ => rfl) (fun _ => (hlast 'x').trans (hlast 'y').symm)
      (fun hin => absurd hin hF)
    obtain ⟨n, hn, hcount⟩ := exists_count (t := first2Token) (by decide) (withLast4 p (c :: s))
    have hcounts := congrArg (List.count 'y') heq
    rw [applyMaskPattern, applyMaskPattern, hsame 'x', hsame 'y',
      hcount _ _ (by decide), hcount _ _ (by decide)] at hcounts
    have hpos := hn hmade
    have htwo : ∀ d, first2 (d :: s) = d :: s.take 1 := fun d =>
      if_pos (by rw [length_cons] at hs ⊢; omega)
    rw [htwo, htwo, count_cons_self, count_cons_of_ne (by decide), Nat.mul_succ] at hcounts
    omega

/-! ## Records -/

variable {mc model}

theorem Agree.mask_eq {v w : Value O} (htame : Tame p) (h : Agree p v w) :
    applyMaskPattern p v = applyMaskPattern p w := by
  cases h with
  | str hlength hlast hfirst => exact htame.mask_eq hlength hlast hfirst
  | other hv hw =>
    have hpattern : ∀ v : Value O, (∀ s, v ≠ .str s) → applyMaskPattern p v = p := by
      intro v hv
      cases v with
      | str s => exact absurd rfl (hv s)
      | nil => rfl
      | other o => rfl
    rw [hpattern v hv, hpattern w hw]

/-- Entries alike have one name, and if it is declared, become the same. -/
theorem alike_masked {x y : String × Value O} (h : Alike mc model x y)
    (htame : ∀ name rule, declared mc model name = true → denied mc model name = some rule →
      rule.onDeniedRead = .Mask → Tame rule.maskPattern) :
    x.1 = y.1 ∧ (declared mc model x.1 = true → maskEntry mc model x = maskEntry mc model y) := by
  cases h with
  | same => exact ⟨rfl, fun _ => rfl⟩
  | undeclared hu => exact ⟨rfl, fun hx => absurd hx (by simp [hu])⟩
  | @denied name v w rule hrule hagree =>
    refine ⟨rfl, fun hx => ?_⟩
    simp only [maskEntry, hrule]
    cases hkind : rule.onDeniedRead with
    | Omit => rfl
    | Nullify => rfl
    | Mask =>
      rw [(hagree hkind).mask_eq (htame name rule hx hrule hkind)]

/-- **Masking hides what it should exactly if every pattern in use is tame.** -/
theorem revealsNothing_iff (mc : ModuleContext) (model : String) (O : Type) : RevealsNothing mc model O ↔
    ∀ name rule, declared mc model name = true → denied mc model name = some rule → rule.onDeniedRead = .Mask →
      Tame rule.maskPattern := by
  constructor
  · intro h name rule hdeclared hrule hkind
    refine tame_of_mask_eq (O := O) fun s t hlength hlast hfirst => ?_
    have heq := h [[(name, .str s)]] [[(name, .str t)]]
      (.cons (.cons (.denied hrule fun _ => .str hlength hlast hfirst) .nil) .nil)
    simpa [applyFieldMasking, maskEntry, hdeclared, hrule, hkind] using heq
  intro htame records records' halike
  induction halike with
  | nil => rfl
  | cons hrecord _ ih =>
    refine congrArg₂ List.cons ?_ ih
    induction hrecord with
    | nil => rfl
    | @cons x y _ _ hxy _ ih =>
      obtain ⟨hname, hmasked⟩ := alike_masked hxy htame
      dsimp only at ih ⊢
      rw [filter_cons, filter_cons, ← hname]
      by_cases hx : declared mc model x.1 = true
      · rw [if_pos hx, if_pos hx, filterMap_cons, filterMap_cons, hmasked hx, ih]
      · rw [if_neg hx, if_neg hx]
        exact ih

/-- **A length makes a token**: a card number of four digits is shown as a whole. -/
theorem length_makes_last4 :
    let rule : FieldSecurityRule := ⟨"hr.salary.read", .Mask, "\x7blast\x7blength\x7d\x7d".toList⟩
    ¬ RevealsNothing ⟨false, [], none, some fun _ _ => some rule, fun _ => some ["pin"]⟩ "hr.employee" Unit := by
  intro rule h
  have hagree : Agree (O := Unit) rule.maskPattern (.str ['1', '2', '3', '4']) (.str ['9', '8', '7', '6']) :=
    .str (fun _ => rfl) (fun hin => absurd hin (by decide)) (fun hin => absurd hin (by decide))
  have heq := h [[("pin", _)]] [[("pin", _)]] (.cons (.cons (.denied rfl fun _ => hagree) .nil) .nil)
  revert heq
  decide

end GoErp.FieldSec
