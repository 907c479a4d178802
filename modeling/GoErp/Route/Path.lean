import Mathlib.Data.List.DropRight
import Mathlib.Data.List.Chain
import GoErp.Lib.Separator
import GoErp.Lib.Percent

/-!
# `Route.Path` — paths and their segments

A path is a byte string. `normalizePath` (`route/route.go`) writes its runes again, a run of slashes as one, and trims
the slashes at both ends; what is between the slashes that are left are the segments of the path. A segment is never
empty and holds no slash (`pathSegments_wellFormed`), and a path that is written from such segments has these segments
(`pathSegments_joined`).
-/

namespace GoErp.Route

open Lib List

/-- A string of the engine: its bytes. -/
abbrev GoString := List UInt8

/-- The bytes of a text. -/
def go (s : String) : GoString := s.toUTF8.data.toList

/-- `/` -/
def slash : UInt8 := 47

/-! ## `normalizePath` -/

/-- A continuation byte. -/
def isCont (b : UInt8) : Bool := 0x80 ≤ b && b ≤ 0xBF

/-- The encodings of two bytes. -/
def isTwo (a b : UInt8) : Bool := 0xC2 ≤ a && a ≤ 0xDF && isCont b

/-- The encodings of three bytes: none that is too long, and no surrogate. -/
def isThree (a b c : UInt8) : Bool :=
  0xE0 ≤ a && a ≤ 0xEF && (if a = 0xE0 then 0xA0 else 0x80) ≤ b && b ≤ (if a = 0xED then 0x9F else 0xBF) && isCont c

/-- The encodings of four bytes, up to the last code point. -/
def isFour (a b c d : UInt8) : Bool :=
  0xF0 ≤ a && a ≤ 0xF4 && (if a = 0xF0 then 0x90 else 0x80) ≤ b && b ≤ (if a = 0xF4 then 0x8F else 0xBF) &&
    isCont c && isCont d

/-- `utf8.RuneError`, encoded. -/
def runeError : GoString := [0xEF, 0xBF, 0xBD]

/-- The runes of a string, as `range` reads them, written again by `WriteRune`: a byte that starts no rune is
    `runeError`. -/
def rewriteRunes : GoString → GoString
  | [] => []
  | a :: s =>
    if a < 0x80 then a :: rewriteRunes s
    else match s with
      | [] => runeError
      | b :: s₂ =>
        if isTwo a b then a :: b :: rewriteRunes s₂
        else match s₂ with
          | [] => runeError ++ rewriteRunes (b :: [])
          | c :: s₃ =>
            if isThree a b c then a :: b :: c :: rewriteRunes s₃
            else match s₃ with
              | [] => runeError ++ rewriteRunes (b :: c :: [])
              | d :: s₄ =>
                if isFour a b c d then a :: b :: c :: d :: rewriteRunes s₄
                else runeError ++ rewriteRunes (b :: c :: d :: s₄)

/-- The loop of `normalizePath`: a slash after a slash is left out. -/
def collapse (previousSlash : Bool) : GoString → GoString
  | [] => []
  | c :: cs =>
    if c = slash then
      if previousSlash then collapse true cs else c :: collapse true cs
    else c :: collapse false cs

/-- `strings.Trim(s, "/")` -/
def trimSlashes (s : GoString) : GoString := (s.dropWhile (· = slash)).rdropWhile (· = slash)

def normalizePath (path : GoString) : GoString := trimSlashes (collapse false (rewriteRunes path))

/-- `strings.Split(normalizedPath, "/")`, and no segment for the empty path. -/
def pathSegments (path : GoString) : List GoString :=
  if normalizePath path = [] then [] else (normalizePath path).splitOn slash

/-- What every segment is. -/
def IsSegment (s : GoString) : Prop := s ≠ [] ∧ slash ∉ s

/-! ### Segments -/

/-- No two slashes in a row. -/
def NoDouble (s : GoString) : Prop := s.IsChain fun a b => ¬ (a = slash ∧ b = slash)

theorem collapse_noDouble (s : GoString) (p : Bool) :
    NoDouble (collapse p s) ∧ (p = true → (collapse p s).head? ≠ some slash) := by
  induction s generalizing p with
  | nil => exact ⟨isChain_nil, fun _ => nofun⟩
  | cons c cs ih =>
    rw [collapse]
    split
    · split
      · exact ⟨(ih true).1, fun _ => (ih true).2 rfl⟩
      rename_i hp
      refine ⟨?_, fun h => absurd h hp⟩
      refine isChain_cons.mpr ⟨fun d hd hboth => ?_, (ih true).1⟩
      exact (ih true).2 rfl (hboth.2 ▸ hd)
    · rename_i hc
      refine ⟨isChain_cons.mpr ⟨fun d _ hboth => hc hboth.1, (ih false).1⟩, fun _ h => ?_⟩
      exact hc (Option.some.inj h)

variable {s : GoString}

theorem NoDouble.trimSlashes (h : NoDouble s) : NoDouble (trimSlashes s) := by
  obtain ⟨dropped, hdropped⟩ := dropWhile_suffix (l := s) (fun b : UInt8 => decide (b = slash))
  obtain ⟨rest, hrest⟩ := rdropWhile_prefix (fun b : UInt8 => decide (b = slash)) (s.dropWhile (· = slash))
  have hdrop : NoDouble (s.dropWhile (· = slash)) := (hdropped ▸ h : List.IsChain _ _).right_of_append
  exact (hrest ▸ hdrop : List.IsChain _ _).left_of_append

theorem getLast_trimSlashes (h : Route.trimSlashes s ≠ []) : (Route.trimSlashes s).getLast h ≠ slash := by
  have hlast := rdropWhile_last_not (fun b : UInt8 => decide (b = slash)) (s.dropWhile (· = slash)) h
  exact fun h' => hlast (decide_eq_true h')

theorem head?_trimSlashes (s : GoString) : (trimSlashes s).head? ≠ some slash := by
  intro h
  obtain ⟨rest, hrest⟩ : ∃ rest, trimSlashes s = slash :: rest := by
    cases hs : trimSlashes s with
    | nil =>
      rw [hs] at h
      cases h
    | cons b rest =>
      rw [hs] at h
      cases h
      exact ⟨rest, rfl⟩
  -- the first byte of the trimmed string is the first after the dropped ones
  obtain ⟨tail, htail⟩ := rdropWhile_prefix (fun b : UInt8 => decide (b = slash)) (s.dropWhile (· = slash))
  have hhead : (s.dropWhile (· = slash)).head? = some slash := by
    rw [← htail]
    show (trimSlashes s ++ tail).head? = some slash
    rw [hrest]
    rfl
  have hnot := head?_dropWhile_not (fun b : UInt8 => decide (b = slash)) s
  rw [hhead] at hnot
  simp at hnot

/-- A string without double slashes that does not end in one: only its first piece can be empty. -/
theorem splitOn_slash (hdouble : NoDouble s) (hne : s ≠ []) (hlast : s.getLast hne ≠ slash) :
    [] ∉ (s.splitOn slash).tail ∧ (s.head? ≠ some slash → [] ∉ s.splitOn slash) := by
  induction s with
  | nil => exact absurd rfl hne
  | cons c cs ih =>
    have hsplit : (c :: cs).splitOn slash =
        if c = slash then [] :: cs.splitOn slash else (cs.splitOn slash).modifyHead (c :: ·) := by
      simp [List.splitOn, splitOnP_cons_eq_if_modifyHead]
    rw [hsplit]
    cases cs with
    | nil =>
      rw [if_neg (show c ≠ slash from hlast)]
      simp [List.splitOn]
    | cons d ds =>
      have hrest := ih (isChain_cons.mp hdouble).2 (cons_ne_nil d ds) hlast
      split
      · rename_i hc
        have hd : (d :: ds).head? ≠ some slash := fun h =>
          (isChain_cons.mp hdouble).1 d rfl ⟨hc, Option.some.inj h⟩
        exact ⟨hrest.2 hd, fun h => absurd (congrArg some hc) h⟩
      have hmem : [] ∉ ((d :: ds).splitOn slash).modifyHead (c :: ·) ∧
          [] ∉ (((d :: ds).splitOn slash).modifyHead (c :: ·)).tail := by
        revert hrest
        cases (d :: ds).splitOn slash with
        | nil => exact fun _ => ⟨not_mem_nil, not_mem_nil⟩
        | cons w ws => exact fun h => ⟨by simpa using h.1, h.1⟩
      exact ⟨hmem.2, fun _ => hmem.1⟩

/-- **No segment is empty, and none holds a slash.** -/
theorem pathSegments_wellFormed (path : GoString) : ∀ s ∈ pathSegments path, IsSegment s := by
  intro s hs
  unfold pathSegments at hs
  split at hs
  · cases hs
  rename_i hne
  have hdouble : NoDouble (normalizePath path) := (collapse_noDouble _ false).1.trimSlashes
  have hpieces := (splitOn_slash hdouble hne (getLast_trimSlashes hne)).2 (head?_trimSlashes _)
  exact ⟨fun h => hpieces (h ▸ hs), notMem_of_mem_splitOn hs⟩

/-! ### Paths from segments -/

theorem rewriteRunes_ascii (h : ∀ b ∈ s, b < 0x80) : rewriteRunes s = s := by
  induction s with
  | nil => rfl
  | cons a s ih =>
    rw [rewriteRunes.eq_def]
    show (if a < 0x80 then a :: rewriteRunes s else _) = a :: s
    rw [if_pos (h a mem_cons_self), ih fun b hb => h b (mem_cons_of_mem a hb)]

theorem collapse_append {w : GoString} (hw : IsSegment w) (p : Bool) (rest : GoString) :
    collapse p (w ++ rest) = w ++ collapse false rest := by
  induction w generalizing p with
  | nil => exact absurd rfl hw.1
  | cons c cs ih =>
    have hc : c ≠ slash := fun h => hw.2 (h ▸ mem_cons_self)
    rw [cons_append, collapse, if_neg hc, cons_append]
    cases cs with
    | nil => rfl
    | cons d ds => rw [ih ⟨cons_ne_nil d ds, fun h => hw.2 (mem_cons_of_mem c h)⟩ false]

variable {ws : List GoString}

theorem collapse_intercalate (h : ∀ w ∈ ws, IsSegment w) (p : Bool) :
    collapse p ([slash].intercalate ws) = [slash].intercalate ws := by
  induction ws generalizing p with
  | nil => rfl
  | cons w ws ih =>
    have hw := h w mem_cons_self
    cases ws with
    | nil =>
      have hone := collapse_append hw p []
      simpa [collapse] using hone
    | cons v vs =>
      have hrest := ih (fun x hx => h x (mem_cons_of_mem w hx)) true
      rw [intercalate_cons_cons, append_assoc, collapse_append hw]
      show w ++ slash :: collapse true ([slash].intercalate (v :: vs)) = _
      rw [hrest]
      rfl

/-- A path that starts with a slash, from its segments. -/
def joined (ws : List GoString) : GoString := slash :: [slash].intercalate ws

theorem head?_intercalate {w : GoString} (hw : IsSegment w) (ws : List GoString) :
    ∃ c rest, [slash].intercalate (w :: ws) = c :: rest ∧ c ≠ slash := by
  cases w with
  | nil => exact absurd rfl hw.1
  | cons c cs =>
    refine ⟨c, ?_⟩
    have hc : c ≠ slash := fun h => hw.2 (h ▸ mem_cons_self)
    cases ws with
    | nil => exact ⟨cs, by simp, hc⟩
    | cons v vs => exact ⟨cs ++ [slash] ++ [slash].intercalate (v :: vs), by rw [intercalate_cons_cons]; rfl, hc⟩

theorem getLast?_intercalate (h : ∀ w ∈ ws, IsSegment w) : ([slash].intercalate ws).getLast? ≠ some slash := by
  induction ws with
  | nil => exact nofun
  | cons w ws ih =>
    have hw := h w mem_cons_self
    cases ws with
    | nil =>
      rw [intercalate_singleton]
      exact fun hlast => hw.2 (mem_of_getLast? hlast)
    | cons v vs =>
      have hlast := ih fun x hx => h x (mem_cons_of_mem w hx)
      obtain ⟨c, rest, hrest, -⟩ := head?_intercalate (h v (mem_cons_of_mem w mem_cons_self)) vs
      rw [hrest] at hlast
      rw [intercalate_cons_cons, hrest, getLast?_append_of_ne_nil _ (cons_ne_nil c rest)]
      exact hlast

theorem mem_intercalate {b : UInt8} (h : b ∈ [slash].intercalate ws) : b = slash ∨ ∃ w ∈ ws, b ∈ w := by
  induction ws with
  | nil => cases h
  | cons w ws ih =>
    cases ws with
    | nil =>
      rw [intercalate_singleton] at h
      exact .inr ⟨w, mem_cons_self, h⟩
    | cons v vs =>
      rw [intercalate_cons_cons, mem_append, mem_append, mem_singleton] at h
      rcases h with (h | h) | h
      · exact .inr ⟨w, mem_cons_self, h⟩
      · exact .inl h
      · exact (ih h).imp id fun ⟨x, hx, hb⟩ => ⟨x, mem_cons_of_mem w hx, hb⟩

/-- **A path written from segments has these segments.** -/
theorem pathSegments_joined (h : ∀ w ∈ ws, IsSegment w) (hascii : ∀ w ∈ ws, ∀ b ∈ w, b < 0x80) :
    pathSegments (joined ws) = ws := by
  have hbytes : ∀ b ∈ joined ws, b < 0x80 := by
    intro b hb
    rcases mem_cons.mp hb with rfl | hb
    · decide
    rcases mem_intercalate hb with rfl | ⟨w, hw, hbw⟩
    · decide
    · exact hascii w hw b hbw
  have hcollapse : collapse false (joined ws) = joined ws := by
    show (if slash = slash then _ else _) = _
    show slash :: collapse true _ = _
    rw [collapse_intercalate h]
    rfl
  -- the path has no double slash; what is trimmed is the leading one
  have hnormal : normalizePath (joined ws) = [slash].intercalate ws := by
    rw [normalizePath, rewriteRunes_ascii hbytes, hcollapse, trimSlashes]
    have hdrop : (joined ws).dropWhile (· = slash) = [slash].intercalate ws := by
      rw [joined, dropWhile_cons_of_pos (by simp)]
      cases ws with
      | nil => rfl
      | cons w ws =>
        obtain ⟨c, rest, hrest, hc⟩ := head?_intercalate (h w mem_cons_self) ws
        rw [hrest, dropWhile_cons_of_neg (by simpa using hc)]
    rw [hdrop, rdropWhile_eq_self_iff]
    intro hne hlast
    refine getLast?_intercalate h ?_
    rw [getLast?_eq_some_getLast hne, of_decide_eq_true hlast]
  cases ws with
  | nil =>
    have hempty : normalizePath (joined []) = [] := hnormal
    rw [pathSegments, if_pos hempty]
  | cons w ws =>
    obtain ⟨c, rest, hrest, -⟩ := head?_intercalate (h w mem_cons_self) ws
    have hne : [slash].intercalate (w :: ws) ≠ [] := by
      rw [hrest]
      exact cons_ne_nil c rest
    rw [pathSegments, hnormal, if_neg hne]
    exact splitOn_intercalate slash (fun x hx => (h x hx).2) (cons_ne_nil w ws)

/-! ## Escaping -/

/-- The bytes that `url.PathEscape` keeps. -/
def keepInPath (b : UInt8) : Bool :=
  (97 ≤ b && b ≤ 122) || (65 ≤ b && b ≤ 90) || (48 ≤ b && b ≤ 57) || b ∈ go "-_.~$&+:=@"

/-- `url.PathEscape` -/
def pathEscape (s : GoString) : GoString := Percent.escape keepInPath s

/-- `url.PathUnescape` -/
def pathUnescape (s : GoString) : Option GoString := Percent.unescape s

theorem keepInPath_iff (b : UInt8) : keepInPath b = true → b < 0x80 ∧ b ≠ slash := by
  have hall : ∀ n < 256, keepInPath (UInt8.ofNat n) = true → UInt8.ofNat n < 0x80 ∧ UInt8.ofNat n ≠ slash := by
    decide +kernel
  have hb := hall b.toNat b.toNat_lt
  rwa [UInt8.ofNat_toNat] at hb

theorem pathUnescape_pathEscape (s : GoString) : pathUnescape (pathEscape s) = some s :=
  Percent.unescape_escape (by decide) s

theorem mem_pathEscape (s : GoString) : ∀ b ∈ pathEscape s, b < 0x80 ∧ b ≠ slash :=
  Percent.forall_mem_escape (by decide) (by decide) keepInPath_iff s

theorem isSegment_pathEscape (h : s ≠ []) : IsSegment (pathEscape s) :=
  ⟨fun h' => h (Percent.escape_eq_nil_iff.mp h'), fun h' => (mem_pathEscape s slash h').2 rfl⟩

/-- The segments that no request may have. -/
def isDots (s : GoString) : Bool := s = go "." || s = go ".."

theorem pathEscape_dots : isDots (pathEscape s) = isDots s := by
  have hkeep : ∀ b ∈ go "..", keepInPath b = true := by decide +kernel
  have hone : pathEscape (go ".") = go "." := Percent.escape_eq_self (by decide +kernel)
  have htwo : pathEscape (go "..") = go ".." := Percent.escape_eq_self hkeep
  have hinj : ∀ t, pathEscape t = t → (pathEscape s = t ↔ s = t) := by
    intro t ht
    constructor
    · intro h
      exact Percent.escape_injective (by decide) (h.trans ht.symm)
    · rintro rfl
      exact ht
  rw [isDots, isDots, decide_eq_decide.mpr (hinj _ hone), decide_eq_decide.mpr (hinj _ htwo)]

end GoErp.Route
