import Protek.Access.Users
import Protek.Foundation.SharedCounter

/-! # The login lockout

A POST to the login page asks whether its address is locked, checks the password, and on
a failure reads the address's counter, and in a statement of its own writes it back. The
workers do this side by side, without a transaction around it.
-/
namespace Protek.Access
open Foundation Foundation.PyText Foundation.Clock

/-- `_env_int`. -/
def envInt (T : CharTable) (environ : Environ) (name : String) (default : ℤ) : ℤ :=
  let raw := clean environ name
  if raw = "" then default else (pyInt T raw).getD default

structure Limits where
  maxAttempts : ℤ
  lockoutMinutes : ℤ
  deriving DecidableEq, Repr

def limits (T : CharTable) (environ : Environ) : Limits :=
  ⟨envInt T environ "MAX_LOGIN_ATTEMPTS" 5,envInt T environ "LOCKOUT_MINUTES" 15⟩

example : limits CharTable.ascii (fun _ => none) = ⟨5,15⟩ := by decide

/-- The row of one address; its column `ip` is UNIQUE. -/
structure LoginAttempt where
  attempts : ℕ
  lockedUntil : Option ℤ
  lastAttempt : Instant
  deriving DecidableEq, Repr

def minute : ℤ := 60 * second

def startOfTime : ℤ := -62135596800 * second

/-- `now + timedelta(minutes=…)`, `none` where Python raises OverflowError. -/
def lockEnd (now : Instant) (minutes : ℤ) : Option ℤ :=
  let u := now + minutes * minute
  if startOfTime ≤ u ∧ u < endOfTime then some u else none

def isLocked (row : Option LoginAttempt) (now : Instant) : Bool × ℤ :=
  match row.bind LoginAttempt.lockedUntil with
  | none => (false,0)
  | some u => if now < u then (true,max 1 ((u - now) / minute + 1)) else (false,0)

inductive LoginError
  | overflow
  | integrity
  deriving DecidableEq, Repr

section
variable (L : Limits)

/-- What `record_failure` makes of the attempts that its SELECT has seen. -/
def freshAttempt (now : Instant) (seen : Option ℕ) : Option LoginAttempt :=
  let attempts := seen.getD 0 + 1
  if L.maxAttempts ≤ attempts then (lockEnd now L.lockoutMinutes).map (fun u => ⟨attempts,some u,now⟩)
  else some ⟨attempts,none,now⟩

/-- The write of `record_failure`: an UPDATE where the SELECT saw a row, and else an INSERT. -/
def recordFailure (row : Option LoginAttempt) (now : Instant) (seen : Option ℕ) :
    Except LoginError (Option LoginAttempt) :=
  match freshAttempt L now seen with
  | none => .error .overflow
  | some fresh =>
    match seen with
    | some _ => .ok (row.map (fun _ => fresh))
    | none => if row.isSome then .error .integrity else .ok (some fresh)

/-- How far one POST with a wrong password or code has got. -/
inductive Request
  | waiting
  | checking
  | recording (now : Instant) (seen : Option ℕ)
  | recorded (attempts : ℕ)
  | answered (attempts : ℕ) (locked : Bool × ℤ)
  | refused (minutes : ℤ)
  | failed (e : LoginError)
  deriving DecidableEq, Repr

structure LoginState (ι : Type*) where
  row : Option LoginAttempt
  requests : ι → Request

inductive LoginAction (ι : Type*)
  | arrive (i : ι) (now : Instant)
  | select (i : ι) (now : Instant)
  | write (i : ι)
  | answer (i : ι) (now : Instant)
  deriving DecidableEq, Repr

def LoginAction.isWrite {ι : Type*} : LoginAction ι → Bool
  | .write _ => true
  | _ => false

variable {ι : Type*} [DecidableEq ι]

/-- One statement of one request. -/
inductive LoginStep : LoginState ι → LoginAction ι → LoginState ι → Prop
  | refuse {s : LoginState ι} {i : ι} {now : Instant} (h : s.requests i = .waiting)
      (hl : (isLocked s.row now).1 = true) :
      LoginStep s (.arrive i now)
        { s with requests := Function.update s.requests i (.refused (isLocked s.row now).2) }
  | check {s : LoginState ι} {i : ι} {now : Instant} (h : s.requests i = .waiting)
      (hl : (isLocked s.row now).1 = false) :
      LoginStep s (.arrive i now) { s with requests := Function.update s.requests i .checking }
  | select {s : LoginState ι} {i : ι} {now : Instant} (h : s.requests i = .checking) :
      LoginStep s (.select i now)
        { s with requests := Function.update s.requests i (.recording now (s.row.map LoginAttempt.attempts)) }
  | store {s : LoginState ι} {i : ι} {now : Instant} {seen : Option ℕ} {row : Option LoginAttempt}
      (h : s.requests i = .recording now seen) (hr : recordFailure L s.row now seen = .ok row) :
      LoginStep s (.write i) ⟨row,Function.update s.requests i (.recorded (seen.getD 0 + 1))⟩
  | crash {s : LoginState ι} {i : ι} {now : Instant} {seen : Option ℕ} {e : LoginError}
      (h : s.requests i = .recording now seen) (hr : recordFailure L s.row now seen = .error e) :
      LoginStep s (.write i) { s with requests := Function.update s.requests i (.failed e) }
  | answer {s : LoginState ι} {i : ι} {now : Instant} {n : ℕ} (h : s.requests i = .recorded n) :
      LoginStep s (.answer i now)
        { s with requests := Function.update s.requests i (.answered n (isLocked s.row now)) }

end

/-! ## What the lockout promises -/

abbrev LoginMove (ι : Type*) := Transition (LoginState ι) (LoginAction ι)

def opened {ι : Type*} (row : Option LoginAttempt) : LoginState ι := ⟨row,fun _ => .waiting⟩

def attemptsOf (row : Option LoginAttempt) : ℕ := (row.map LoginAttempt.attempts).getD 0

/-- The failed logins that have come to their write. -/
def failures {ι : Type*} (ts : List (LoginMove ι)) : ℕ := ts.countP (fun t => t.label.isWrite)

/-- No request stands between its SELECT and its write. -/
def Settled {ι : Type*} (s : LoginState ι) : Prop := ∀ i now seen, s.requests i ≠ .recording now seen

/-- Every failure is counted and none of the requests crashed; and from the failure on that
reaches the limit, a POST that starts before the end of the lock is refused. -/
structure Counted {ι : Type*} [DecidableEq ι] (L : Limits) (row : Option LoginAttempt) (ts : List (LoginMove ι))
    (s : LoginState ι) : Prop where
  attempts : attemptsOf s.row = attemptsOf row + failures ts
  handled : ∀ i e, s.requests i ≠ .failed e
  locked : 0 < failures ts → L.maxAttempts ≤ failures ts → ∃ u, s.row.bind LoginAttempt.lockedUntil = some u ∧
    ∀ i (now : Instant) t, now < u → LoginStep L s (.arrive i now) t → ∃ m, t.requests i = .refused m

/-- No attempts are read while another failure is between its read and its write, and a lock that
is due ends at a date that Python can hold. -/
def Undisturbed {ι : Type*} (L : Limits) (t : LoginMove ι) : Prop :=
  (∀ i now, t.label = .select i now → Settled t.before) ∧
  ∀ i now seen, t.label = .write i → t.before.requests i = .recording now seen →
    L.maxAttempts ≤ seen.getD 0 + 1 → (lockEnd now L.lockoutMinutes).isSome

/-! ## The counter behind the lockout -/

def rank (seen : Option ℕ) : ℤ := seen.getD 0

section
variable {ι : Type*}

end

section
variable {ι : Type*} [DecidableEq ι] {L : Limits}

/-- What was in the row when it was read is still a row when it is written. -/
def RowKept (s : LoginState ι) : Prop := ∀ i now n, s.requests i = .recording now (some n) → s.row.isSome

theorem freshAttempt_attempts {now : Instant} {seen : Option ℕ} {r : LoginAttempt} (h : freshAttempt L now seen = some r) :
    r.attempts = seen.getD 0 + 1 ∧ (L.maxAttempts ≤ r.attempts → r.lockedUntil.isSome) := by
  unfold freshAttempt at h
  dsimp only at h
  split at h
  · obtain ⟨u,-,rfl⟩ := Option.map_eq_some_iff.mp h
    exact ⟨rfl,fun _ => rfl⟩
  · rename_i hlt
    cases h
    exact ⟨rfl,fun hle => absurd hle hlt⟩

/-- A write that succeeds leaves the row of its own count. -/
theorem recordFailure_ok {row row' : Option LoginAttempt} {now : Instant} {seen : Option ℕ}
    (h : recordFailure L row now seen = .ok row') (hk : seen.isSome → row.isSome) :
    ∃ r, row' = some r ∧ r.attempts = seen.getD 0 + 1 ∧ (L.maxAttempts ≤ r.attempts → r.lockedUntil.isSome) := by
  unfold recordFailure at h
  cases hf : freshAttempt L now seen with
  | none => simp [hf] at h
  | some fresh =>
    rw [hf] at h
    refine ⟨fresh,?_,freshAttempt_attempts hf⟩
    cases seen with
    | none =>
      dsimp only at h
      split at h
      · cases h
      · exact (Except.ok.inj h).symm
    | some n =>
      obtain ⟨old,rfl⟩ := Option.isSome_iff_exists.mp (hk rfl)
      exact (Except.ok.inj h).symm

theorem RowKept.step {t : LoginMove ι} (h : RowKept t.before) (hs : LoginStep L t.before t.label t.after) :
    RowKept t.after := by
  obtain ⟨s,a,u⟩ := t
  dsimp only at h hs ⊢
  have hkeep : ∀ {i : ι} {x : Request}, (∀ now n, x = .recording now (some n) → s.row.isSome) →
      RowKept { s with requests := Function.update s.requests i x } := by
    intro i x hx j now n hj
    dsimp only at hj ⊢
    rcases eq_or_ne j i with rfl | hne
    · exact hx now n (by rwa [Function.update_self] at hj)
    · exact h j now n (by rwa [Function.update_of_ne hne] at hj)
  cases hs with
  | refuse hw hl => exact hkeep (by simp)
  | check hw hl => exact hkeep (by simp)
  | select hw =>
    refine hkeep ?_
    intro now n heq
    injection heq with _ hrow
    cases hr : s.row with
    | none => simp [hr] at hrow
    | some r => rfl
  | @store i now seen row hw hr =>
    have hk : seen.isSome → s.row.isSome := by
      intro hsome
      obtain ⟨n,rfl⟩ := Option.isSome_iff_exists.mp hsome
      exact h i now n hw
    obtain ⟨r,rfl,-⟩ := recordFailure_ok hr hk
    exact fun _ _ _ _ => rfl
  | crash hw hr => exact hkeep (by simp)
  | answer hw => exact hkeep (by simp)

variable {row : Option LoginAttempt} {ts : List (LoginMove ι)} {s : LoginState ι}

end

end Protek.Access
