import GoErp.Lib.TtlCache

/-!
# `Mfa.Totp` — verification codes and their replay markers

`Service.Verify` (`mfa/totp/service.go`) tries the code against every TOTP credential of the user and claims a replay
marker in Redis before it accepts. The otp library decides on the passcode without its surrounding white space, at the
current 30-second step and its two neighbours; the marker is keyed by the string as submitted and lives for 90
seconds, just the time during which one step can be accepted (`acceptable_within_replayTTL`). So a step is accepted
once per spelling of its code.
-/

namespace GoErp.Mfa

open Lib List

/-! ## The otp library -/

/-- Times are nanoseconds since the epoch. -/
def second : Nat := 1000000000

def period : Nat := 30

def digits : Nat := 6

def replayTTL : Nat := 90 * second

/-- `unicode.IsSpace` -/
def isSpace (c : Char) : Bool :=
  c.val ∈ [0x09, 0x0a, 0x0b, 0x0c, 0x0d, 0x20, 0x85, 0xa0, 0x1680, 0x2028, 0x2029, 0x202f, 0x205f, 0x3000] ||
    (0x2000 ≤ c.val && c.val ≤ 0x200a)

/-- `strings.TrimSpace` -/
def trimSpace (s : String) : String :=
  String.ofList (((s.toList.dropWhile isSpace).reverse.dropWhile isSpace).reverse)

/-- The one-time codes: six digits for each secret and step. `none` is a secret that does not decode. -/
structure Otp where
  code : (secret : String) → (step : Int) → Option String

inductive OtpError where
  | invalidLength
  | invalidSecret
deriving DecidableEq, Repr

def counter (now : Nat) : Int := (now / second / period : Nat)

/-- The counters `totp.ValidateCustom` tries, with a skew of one step. -/
def steps (now : Nat) : List Int := [counter now, counter now + 1, counter now - 1]

def Otp.matchSteps (otp : Otp) (passcode secret : String) : List Int → Except OtpError Bool
  | [] => .ok false
  | k :: ks =>
    match otp.code secret k with
    | none => .error .invalidSecret
    | some d => if d = passcode then .ok true else otp.matchSteps passcode secret ks

/-- `totp.ValidateCustom`: the passcode is trimmed and its length checked before any step is tried. -/
def Otp.validateCustom (otp : Otp) (passcode secret : String) (now : Nat) : Except OtpError Bool :=
  if (trimSpace passcode).utf8ByteSize ≠ digits then .error .invalidLength
  else otp.matchSteps (trimSpace passcode) secret (steps now)

/-- A step is accepted from the period before its own to the period after it, which is less than the life of a
marker. -/
theorem acceptable_within_replayTTL {k : Int} {t t' : Nat} (h : k ∈ steps t) (h' : k ∈ steps t') :
    t' < t + replayTTL := by
  simp only [steps, counter, mem_cons, not_mem_nil, or_false, period, second] at h h'
  simp only [replayTTL, second]
  omega

/-! ## The service -/

inductive CredentialType where
  | totp
  | webauthn
  | recoveryCode
deriving DecidableEq, Repr

structure Credential where
  id : String
  type : CredentialType
  /-- encrypted -/
  credential : String
deriving DecidableEq, Repr

/-- The errors of `Verify` that are not a wrong code. -/
inductive VerifyError where
  | decrypt (credentialID : String)
  | validate (e : OtpError)
deriving DecidableEq, Repr

section

variable (otp : Otp) (decrypt : String → Option String)

/-- A code of the wrong length is simply invalid. -/
def validate (code secret : String) (now : Nat) : Except VerifyError Bool :=
  match otp.validateCustom code secret now with
  | .error .invalidLength => .ok false
  | .error e => .error (.validate e)
  | .ok b => .ok b

def replayKey (userID code : String) : String := "totp:used:" ++ userID ++ ":" ++ code

/-- The loop of `Verify` over the credentials, with the last failure to decrypt so far. -/
def verifyCredentials (cache : TtlCache String String) (now : Nat) (userID code : String) :
    Option String → List Credential → TtlCache String String × Except VerifyError (Option Credential)
  | none, [] => (cache, .ok none)
  | some id, [] => (cache, .error (.decrypt id))
  | decryptErr, c :: cs =>
    if c.type ≠ .totp then verifyCredentials cache now userID code decryptErr cs
    else
      match decrypt c.credential with
      | none => verifyCredentials cache now userID code (some c.id) cs
      | some secret =>
        match validate otp code secret now with
        | .error e => (cache, .error e)
        | .ok false => verifyCredentials cache now userID code decryptErr cs
        | .ok true =>
          let (cache', claimed) := cache.setNX now (replayKey userID code) "1" replayTTL
          (cache', .ok (if claimed then some c else none))

structure Call where
  now : Nat
  userID : String
  /-- what `ListAccepted` returns -/
  creds : List Credential
  code : String
deriving DecidableEq, Repr

/-- `Verify`. -/
def Call.verifyCredentials (a : Call) (cache : TtlCache String String) :
    TtlCache String String × Except VerifyError (Option Credential) :=
  Mfa.verifyCredentials otp decrypt cache a.now a.userID a.code none a.creds

/-- `Verify` returns `true` and the id of this credential. -/
def Call.accepted (a : Call) (cache : TtlCache String String) : Option Credential :=
  match (a.verifyCredentials otp decrypt cache).2 with
  | .ok (some c) => some c
  | _ => none

/-- The calls with what each was accepted for. -/
def history (cache : TtlCache String String) : List Call → List (Call × Option Credential)
  | [] => []
  | a :: as => (a, a.accepted otp decrypt cache) :: history (a.verifyCredentials otp decrypt cache).1 as

/-- The call was accepted for the step `k` of the secret. -/
def AcceptedStep (a : Call × Option Credential) (secret : String) (k : Int) : Prop :=
  (∃ c, a.2 = some c ∧ decrypt c.credential = some secret) ∧ k ∈ steps a.1.now ∧
    otp.code secret k = some (trimSpace a.1.code)

/-- No step of a user's secret is accepted twice. -/
def SingleUse (h : List (Call × Option Credential)) : Prop :=
  h.Pairwise fun a b => a.1.userID = b.1.userID →
    ∀ secret k, AcceptedStep otp decrypt a secret k → ¬ AcceptedStep otp decrypt b secret k

/-! ## Markers -/

variable {otp decrypt} {cache : TtlCache String String}

/-- A held marker stays held through a call, and keeps its own code from being accepted. -/
theorem verifyCredentials_held {key : String} {e : Nat} (h : cache.Held key e)
    (now : Nat) (userID code : String) (err : Option String) (creds : List Credential) :
    (verifyCredentials otp decrypt cache now userID code err creds).1.Held key e ∧
      (key = replayKey userID code → now < e → ∀ c,
        (verifyCredentials otp decrypt cache now userID code err creds).2 ≠ .ok (some c)) := by
  induction creds generalizing err with
  | nil => cases err <;> exact ⟨h, fun _ _ _ hc => by cases hc⟩
  | cons c cs ih =>
    rw [verifyCredentials]
    by_cases ht : c.type ≠ .totp
    · rw [if_pos ht]
      exact ih err
    rw [if_neg ht]
    cases hd : decrypt c.credential with
    | none => exact ih (some c.id)
    | some secret =>
      cases hv : validate otp code secret now with
      | error e => simpa only [hv] using ⟨h, fun _ _ _ hc => by cases hc⟩
      | ok b =>
        cases b with
        | false => simpa only [hv] using ih err
        | true =>
          simp only [hv]
          refine ⟨h.setNX .., fun hkey hnow c' => ?_⟩
          rw [← hkey, h.not_claimed hnow]
          simp

/-- An accepted call has claimed the marker of the string it submitted. -/
theorem verifyCredentials_claims {now : Nat} {userID code : String} {err : Option String} {creds : List Credential}
    {c : Credential} (h : (verifyCredentials otp decrypt cache now userID code err creds).2 = .ok (some c)) :
    (verifyCredentials otp decrypt cache now userID code err creds).1.Held (replayKey userID code)
      (now + replayTTL) := by
  induction creds generalizing err with
  | nil => cases err <;> cases h
  | cons c cs ih =>
    rw [verifyCredentials] at h ⊢
    by_cases ht : c.type ≠ .totp
    · rw [if_pos ht] at h ⊢
      exact ih h
    rw [if_neg ht] at h ⊢
    cases hd : decrypt c.credential with
    | none =>
      simp only [hd] at h ⊢
      exact ih h
    | some secret =>
      cases hv : validate otp code secret now with
      | error e => simp [hd, hv] at h
      | ok b =>
        cases b with
        | false =>
          simp only [hd, hv] at h ⊢
          exact ih h
        | true =>
          simp only [hd, hv] at h ⊢
          apply TtlCache.setNX_claimed
          by_contra hc
          simp [hc] at h

theorem Call.accepted_eq_some {a : Call} {c : Credential} :
    a.accepted otp decrypt cache = some c ↔ (a.verifyCredentials otp decrypt cache).2 = .ok (some c) := by
  unfold accepted
  split <;> simp_all

/-- While a marker is held, no later call with its key is accepted. -/
theorem history_held {key : String} {e : Nat} (h : cache.Held key e)
    {calls : List Call} {b : Call × Option Credential} (hb : b ∈ history otp decrypt cache calls)
    (hkey : key = replayKey b.1.userID b.1.code) (hnow : b.1.now < e) : b.2 = none := by
  induction calls generalizing cache with
  | nil => cases hb
  | cons a as ih =>
    obtain ⟨hheld, hno⟩ : (a.verifyCredentials otp decrypt cache).1.Held key e ∧
        (key = replayKey a.userID a.code → a.now < e → ∀ c, (a.verifyCredentials otp decrypt cache).2 ≠ .ok (some c)) :=
      verifyCredentials_held h a.now a.userID a.code none a.creds
    rcases mem_cons.mp hb with rfl | hb
    · apply Option.eq_none_iff_forall_ne_some.mpr
      intro c hc
      exact hno hkey hnow c (Call.accepted_eq_some.mp hc)
    · exact ih hheld hb

theorem mem_of_mem_history {calls : List Call} {b : Call × Option Credential}
    (hb : b ∈ history otp decrypt cache calls) : b.1 ∈ calls := by
  induction calls generalizing cache with
  | nil => cases hb
  | cons a as ih =>
    rcases mem_cons.mp hb with rfl | hb
    · exact mem_cons_self
    · exact mem_cons_of_mem _ (ih hb)

end

/-- **Codes are single use**: for any credentials, keys and markers already set, and any calls at non-decreasing
times among which two strings that agree up to surrounding white space are the same string. -/
theorem totp_single_use (otp : Otp) (decrypt : String → Option String) (cache : TtlCache String String)
    (calls : List Call) (hsorted : calls.Pairwise fun a b => a.now ≤ b.now)
    (hplain : ∀ a ∈ calls, ∀ b ∈ calls, trimSpace a.code = trimSpace b.code → a.code = b.code) :
    SingleUse otp decrypt (history otp decrypt cache calls) := by
  induction calls generalizing cache with
  | nil => exact List.Pairwise.nil
  | cons a as ih =>
    obtain ⟨-, hsorted'⟩ := pairwise_cons.mp hsorted
    refine pairwise_cons.mpr ⟨?_, ih _ hsorted' fun x hx y hy =>
      hplain x (mem_cons_of_mem _ hx) y (mem_cons_of_mem _ hy)⟩
    rintro b hb huser secret k ⟨⟨c, hc, -⟩, hk, hcode⟩ ⟨⟨c', hc', -⟩, hk', hcode'⟩
    have hcode : a.code = b.1.code :=
      hplain a mem_cons_self b.1 (mem_cons_of_mem _ (mem_of_mem_history hb))
        (Option.some.inj (hcode.symm.trans hcode'))
    have hheld := verifyCredentials_claims (Call.accepted_eq_some.mp hc)
    have hkey : replayKey a.userID a.code = replayKey b.1.userID b.1.code := by
      show replayKey a.userID a.code = _
      rw [hcode, show a.userID = b.1.userID from huser]
    have hnone := history_held hheld hb hkey (acceptable_within_replayTTL hk hk')
    exact absurd (hnone.symm.trans hc') (by simp)

/-- Codes that differ between neighbouring steps. -/
def threeCodes : Otp where
  code _ k := some (if k % 3 = 0 then "123450" else if k % 3 = 1 then "123451" else "123452")

def authenticator : Credential := ⟨"c1", .totp, "sealed"⟩

/-- The same string twice at once: only the first is accepted. -/
def repeated : List Call := [⟨0, "u1", [authenticator], "123450"⟩, ⟨0, "u1", [authenticator], "123450"⟩]

theorem totp_single_use_repeated : SingleUse threeCodes some (history threeCodes some (fun _ => none) repeated) ∧
      (history threeCodes some (fun _ => none) repeated).map (·.2) = [some authenticator, none] :=
  ⟨totp_single_use threeCodes some (fun _ => none) repeated (by simp [repeated])
    (by simp [repeated]), by decide⟩

/-- The second string has a blank at its end: it is accepted as well, for the same step. -/
def respelled : List Call := [⟨0, "u1", [authenticator], "123450"⟩, ⟨0, "u1", [authenticator], "123450 "⟩]

theorem totp_accepts_respelled :
    ¬ ∀ (otp : Otp) (decrypt : String → Option String) (cache : TtlCache String String) (calls : List Call),
      (∀ s i j, i < j → j ≤ i + 2 → otp.code s i ≠ otp.code s j) → calls.Pairwise (fun a b => a.now ≤ b.now) →
      SingleUse otp decrypt (history otp decrypt cache calls) := by
  intro h
  have hdistinct : ∀ (s : String) (i j : Int), i < j → j ≤ i + 2 → threeCodes.code s i ≠ threeCodes.code s j := by
    intro s i j hij hji
    have hi : i % 3 = 0 ∨ i % 3 = 1 ∨ i % 3 = 2 := by omega
    have hj : j % 3 = 0 ∨ j % 3 = 1 ∨ j % 3 = 2 := by omega
    rcases hi with hi | hi | hi <;> rcases hj with hj | hj | hj <;> first
      | omega
      | dsimp only [threeCodes]; rw [hi, hj]; decide
  have hh := h threeCodes some (fun _ => none) respelled hdistinct (by simp [respelled])
  have hres : history threeCodes some (fun _ => none) respelled =
      respelled.map fun a => (a, some authenticator) := by decide
  rw [hres] at hh
  obtain ⟨hfirst, -⟩ := pairwise_cons.mp hh
  refine hfirst _ mem_cons_self rfl "sealed" 0 ?_ ?_ <;>
    exact ⟨⟨authenticator, rfl, rfl⟩, by decide, by decide⟩

end GoErp.Mfa
