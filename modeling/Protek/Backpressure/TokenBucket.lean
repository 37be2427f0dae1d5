import Mathlib.Algebra.Order.Field.Rat
import Protek.Foundation.Metering

/-! # Token buckets

A bucket is refilled when it is drawn from, for all the time since it was drawn from last
and at the rate of that moment. A 429 drains it and halves the rate for five minutes.
-/
namespace Protek.Backpressure
open Foundation Foundation.Metering

/-- `PENALTY_WINDOW_S`. -/
def penaltyWindow : ℚ := 300

/-- `PENALTY_DIVISOR`. -/
def penaltyDivisor : ℚ := 2

/-- What a bucket is built with. -/
structure Limits where
  capacity : ℤ
  refillPerS : ℚ
  one_le : 1 ≤ capacity
  pos : 0 < refillPerS

def Limits.of (tokensPerMin capacity : ℤ) : Limits where
  capacity := max 1 capacity
  refillPerS := max (1 / 1000) (tokensPerMin / 60)
  one_le := le_max_left _ _
  pos := lt_max_of_lt_left (by norm_num)

structure TokenBucket where
  tokens : ℚ
  last : ℚ
  penaltyUntil : ℚ
  deriving DecidableEq, Repr

section
variable (L : Limits)

/-- `__init__`. -/
def fresh (now : ℚ) : TokenBucket := ⟨L.capacity,now,0⟩

/-- `_refill_rate_now`, which reads the clock itself. -/
def refillRateNow (b : TokenBucket) (rateAt : ℚ) : ℚ :=
  if rateAt < b.penaltyUntil then L.refillPerS / penaltyDivisor else L.refillPerS

def refilled (b : TokenBucket) (now rateAt : ℚ) : ℚ :=
  min L.capacity (b.tokens + max 0 (now - b.last) * refillRateNow L b rateAt)

/-- `acquire`, with the two readings of the clock that it makes. -/
def acquire (b : TokenBucket) (now rateAt : ℚ) (tokens : ℤ) : Bool × TokenBucket :=
  let b := { b with tokens := refilled L b now rateAt, last := now }
  if (tokens : ℚ) ≤ b.tokens then (true,{ b with tokens := b.tokens - tokens }) else (false,b)

/-- `record_429`. -/
def record429 (b : TokenBucket) (now : ℚ) : TokenBucket := { b with penaltyUntil := now + penaltyWindow, tokens := 0 }

/-- The tokens that a call is granted. -/
def granted (b : TokenBucket) (now rateAt : ℚ) (tokens : ℤ) : ℚ := if (acquire L b now rateAt tokens).1 then tokens else 0

end

/-! ## Runs -/

inductive Call
  | acquire (now rateAt : ℚ) (tokens : ℤ)
  | record429 (now : ℚ)
  deriving DecidableEq, Repr

/-- The reading of the clock that a call goes by. -/
def Call.now : Call → ℚ
  | .acquire now _ _ => now
  | .record429 now => now

/-- A bucket with the last reading of the clock. -/
structure Clocked where
  bucket : TokenBucket
  clock : ℚ
  deriving DecidableEq, Repr

section
variable (L : Limits)

/-- A call under the lock, on a clock that does not run backwards. -/
def CallStep (s : Clocked) (call : Call) (s' : Clocked) : Prop :=
  match call with
  | .acquire now rateAt tokens => s.clock ≤ now ∧ now ≤ rateAt ∧ s' = ⟨(acquire L s.bucket now rateAt tokens).2,rateAt⟩
  | .record429 now => s.clock ≤ now ∧ s' = ⟨record429 s.bucket now,now⟩

def start (now : ℚ) : Clocked := ⟨fresh L now,now⟩

/-- What a call of a run is granted. -/
def grantedBy (t : Transition Clocked Call) : ℚ :=
  match t.label with
  | .acquire now rateAt tokens => granted L t.before.bucket now rateAt tokens
  | .record429 _ => 0

/-- The tokens of a bucket as a stock. -/
def meter : Meter Clocked Call ℚ ℚ where
  stock s := s.bucket.tokens
  last s := s.bucket.last
  time t := t.label.now
  out := grantedBy L

/-- The tokens granted from `a` to `b`. -/
def grantedIn (a b : ℚ) (ts : List (Transition Clocked Call)) : ℚ := drawn (meter L) a b ts

end

/-! ## One call -/

section
variable {L : Limits} {b : TokenBucket} {now rateAt : ℚ} {tokens : ℤ} {s s' : Clocked} {call : Call}

theorem refillRateNow_pos (L : Limits) (b : TokenBucket) (rateAt : ℚ) : 0 < refillRateNow L b rateAt := by
  have hpos := L.pos
  rw [refillRateNow]
  split
  · exact div_pos hpos (by norm_num [penaltyDivisor])
  · exact hpos

theorem refillRateNow_le (L : Limits) (b : TokenBucket) (rateAt : ℚ) : refillRateNow L b rateAt ≤ L.refillPerS := by
  have hpos := L.pos
  rw [refillRateNow]
  split
  · exact div_le_self hpos.le (by norm_num [penaltyDivisor])
  · exact le_rfl

theorem refilled_le_capacity : refilled L b now rateAt ≤ L.capacity := min_le_left _ _

theorem refilled_nonneg (h : 0 ≤ b.tokens) : 0 ≤ refilled L b now rateAt := by
  have hcap : (0 : ℚ) ≤ L.capacity := by
    exact_mod_cast zero_le_one.trans L.one_le
  have hrate := (refillRateNow_pos L b rateAt).le
  exact le_min hcap (add_nonneg h (mul_nonneg (le_max_left _ _) hrate))

/-- The refill is for the time since the last one. -/
theorem refilled_le (h : b.last ≤ now) :
    refilled L b now rateAt ≤ b.tokens + (now - b.last) * refillRateNow L b rateAt := by
  rw [refilled, max_eq_right (sub_nonneg.mpr h)]
  exact min_le_right _ _

/-- A call takes what it is granted out of the refilled bucket, and stamps the bucket. -/
theorem acquire_spec (L : Limits) (b : TokenBucket) (now rateAt : ℚ) (tokens : ℤ) :
    granted L b now rateAt tokens + (acquire L b now rateAt tokens).2.tokens = refilled L b now rateAt ∧
      (acquire L b now rateAt tokens).2.last = now ∧
      (acquire L b now rateAt tokens).2.penaltyUntil = b.penaltyUntil := by
  unfold granted acquire
  dsimp only
  split
  · exact ⟨add_sub_cancel _ _,rfl,rfl⟩
  · exact ⟨zero_add _,rfl,rfl⟩

theorem acquire_tokens_nonneg (h : 0 ≤ b.tokens) : 0 ≤ (acquire L b now rateAt tokens).2.tokens := by
  unfold acquire
  dsimp only
  split
  · next hle => exact sub_nonneg.mpr hle
  · exact refilled_nonneg h

theorem granted_nonneg (h : 0 ≤ tokens) : 0 ≤ granted L b now rateAt tokens := by
  unfold granted
  split
  · exact_mod_cast h
  · exact le_rfl

/-- A bucket whose stamp is not ahead of the clock. -/
structure Sound (s : Clocked) : Prop where
  stamped : s.bucket.last ≤ s.clock
  solvent : 0 ≤ s.bucket.tokens

theorem sound_start (L : Limits) (now : ℚ) : Sound (start L now) := by
  refine ⟨le_rfl,?_⟩
  change (0 : ℚ) ≤ L.capacity
  exact_mod_cast zero_le_one.trans L.one_le

theorem CallStep.sound (h : CallStep L s call s') (hs : Sound s) : Sound s' := by
  cases call with
  | acquire now rateAt tokens =>
    obtain ⟨-,hrate,rfl⟩ := h
    refine ⟨?_,acquire_tokens_nonneg hs.solvent⟩
    rw [(acquire_spec L s.bucket now rateAt tokens).2.1]
    exact hrate
  | record429 now =>
    obtain ⟨hclock,rfl⟩ := h
    exact ⟨hs.stamped.trans hclock,le_rfl⟩

theorem CallStep.clock_le_now (h : CallStep L s call s') : s.clock ≤ call.now := by
  cases call with
  | acquire now rateAt tokens => exact h.1
  | record429 now => exact h.1

theorem CallStep.now_le_clock (h : CallStep L s call s') : call.now ≤ s'.clock := by
  cases call with
  | acquire now rateAt tokens =>
    obtain ⟨-,hrate,rfl⟩ := h
    exact hrate
  | record429 now =>
    obtain ⟨-,rfl⟩ := h
    exact le_rfl

theorem sound_of_trace {ts : List (Transition Clocked Call)} (h : Trace (CallStep L) s ts s') (hs : Sound s) :
    Sound s' ∧ ∀ t ∈ ts, Sound t.before ∧ Sound t.after :=
  h.always hs (fun _ hstep hs => hstep.sound hs)

end

/-! ## Bursts -/

section
variable {L : Limits} {s s' : Clocked} {t : Transition Clocked Call}

/-- A call for at least one token. -/
def Acquires (t : Transition Clocked Call) : Prop := ∃ now rateAt tokens, t.label = .acquire now rateAt tokens ∧ 1 ≤ tokens

/-- A call draws from a bucket that fills at its rate at most, and leaves no more than the capacity. -/
theorem draws_acquire {now rateAt : ℚ} {tokens : ℤ} (h : CallStep L t.before t.label t.after) (hs : Sound t.before)
    (hcall : t.label = .acquire now rateAt tokens) : Draws (meter L) (fun x => L.refillPerS * x) t ∧
      grantedBy L t + t.after.bucket.tokens ≤ L.capacity := by
  obtain ⟨before,label,after⟩ := t
  dsimp only at hcall h hs ⊢
  subst hcall
  obtain ⟨hclock,hrate,rfl⟩ := h
  obtain ⟨hsum,hlast,-⟩ := acquire_spec L before.bucket now rateAt tokens
  have hforward : before.bucket.last ≤ now := hs.stamped.trans hclock
  refine ⟨⟨hforward,hlast,acquire_tokens_nonneg hs.solvent,?_⟩,hsum.le.trans refilled_le_capacity⟩
  have hfill := @refilled_le L before.bucket now rateAt hforward
  have hslow := mul_le_mul_of_nonneg_left (refillRateNow_le L before.bucket rateAt) (sub_nonneg.mpr hforward)
  change granted L before.bucket now rateAt tokens + (acquire L before.bucket now rateAt tokens).2.tokens ≤
    before.bucket.tokens + (L.refillPerS * now - L.refillPerS * before.bucket.last)
  rw [hsum]
  linarith

end

/-- In any interval of a run without a 429, no more is granted than a full bucket and what flows in meanwhile; and the
bucket is never overdrawn and never more than full. -/
theorem bursts_bounded (L : Limits) (now : ℚ) {s : Clocked} {ts : List (Transition Clocked Call)}
    (h : Trace (CallStep L) (start L now) ts s) (hcalls : ∀ t ∈ ts, Acquires t) :
    (∀ a b, a ≤ b → grantedIn L a b ts ≤ L.capacity + L.refillPerS * (b - a)) ∧
      0 ≤ s.bucket.tokens ∧ s.bucket.tokens ≤ L.capacity := by
  obtain ⟨hsound,hall⟩ := sound_of_trace h (sound_start L now)
  have hdraws : ∀ t ∈ ts, Draws (meter L) (fun x => L.refillPerS * x) t ∧ grantedBy L t + t.after.bucket.tokens ≤ L.capacity := by
    intro t ht
    obtain ⟨now,rateAt,tokens,hcall,-⟩ := hcalls t ht
    exact draws_acquire (h.mem_step t ht) (hall t ht).1 hcall
  refine ⟨fun a b hab => ?_,hsound.solvent,?_⟩
  · have hcurve : Monotone (fun x => L.refillPerS * x) := fun x y hxy => mul_le_mul_of_nonneg_left hxy L.pos.le
    have hbound := drawn_le h hcurve hab (sound_start L now).solvent (c := (L.capacity : ℚ)) le_rfl (fun t ht => (hdraws t ht).1)
      (fun t ht _ => (hdraws t ht).2)
    rw [mul_sub]
    exact hbound
  · refine (h.invariant (I := fun s : Clocked => s.bucket.tokens ≤ L.capacity) (C := Acquires) (le_refl (L.capacity : ℚ)) ?_ hcalls).1
    rintro ⟨before,label,after⟩ hstep ⟨now,rateAt,tokens,hcall,hone⟩ -
    dsimp only at hcall hstep ⊢
    subst hcall
    obtain ⟨-,-,rfl⟩ := hstep
    have hsum := (acquire_spec L before.bucket now rateAt tokens).1
    have hgranted : 0 ≤ granted L before.bucket now rateAt tokens := granted_nonneg (zero_le_one.trans hone)
    have hcap : refilled L before.bucket now rateAt ≤ L.capacity := refilled_le_capacity
    linarith

/-! ## A bucket of two that refills once a second -/

def twoTokens : Limits := Limits.of 60 2

/-- A call whose readings of the clock are the same. -/
def callAt (L : Limits) (s : Clocked) (now : ℚ) (tokens : ℤ) : Transition Clocked Call :=
  ⟨s,.acquire now now tokens,⟨(acquire L s.bucket now now tokens).2,now⟩⟩

def firstCall : Transition Clocked Call := callAt twoTokens (start twoTokens 0) 1 2

def secondCall : Transition Clocked Call := callAt twoTokens firstCall.after 2 1

theorem burst_trace : Trace (CallStep twoTokens) (start twoTokens 0) [firstCall,secondCall] secondCall.after :=
  (Trace.single ⟨zero_le_one,le_rfl,rfl⟩).snoc ⟨one_le_two,le_rfl,rfl⟩

theorem bursts_bounded_example : grantedIn twoTokens 0 2 [firstCall,secondCall] = 3 ∧
    grantedIn twoTokens 0 2 [firstCall,secondCall] ≤ twoTokens.capacity + twoTokens.refillPerS * (2 - 0) := by
  refine ⟨by decide +kernel,(bursts_bounded twoTokens 0 burst_trace ?_).1 0 2 zero_le_two⟩
  simp only [List.mem_cons, List.not_mem_nil, or_false, forall_eq_or_imp, forall_eq]
  exact ⟨⟨1,1,2,rfl,by decide⟩,2,2,1,rfl,by decide⟩

end Protek.Backpressure
