import Mathlib.Tactic.Ring
import Protek.Backpressure.TokenBucket

/-! # Grants after a 429

For five minutes after a 429 a bucket should fill at half its rate. The refill of a call is
for all the time since the last call, at the rate of its own moment: it counts time before
the 429, and counts in full the time of the penalty when it comes after the end of it.
-/
namespace Protek.Backpressure
open Foundation Foundation.Metering

/-- The time since a 429, of which the penalty counts half. -/
def weight (t₀ t : ℚ) : ℚ := min (t - t₀) 300 / 2 + max (t - t₀ - 300) 0

section
variable (L : Limits)

/-- What a bucket may grant from a 429 on. -/
def allowance (t₀ t : ℚ) : ℚ := L.refillPerS / 2 * min (t - t₀) 300 + L.refillPerS * max (t - t₀ - 300) 0

/-- The bucket was refilled since the 429, and is not refilled now across the end of the penalty. -/
def Timely (t₀ : ℚ) (b : TokenBucket) (now rateAt : ℚ) : Prop :=
  t₀ ≤ b.last ∧ (rateAt < t₀ + 300 ∨ t₀ + 300 ≤ b.last ∨ b.last = now)

/-- A call refills in time, or the rates since the 429 would have filled the bucket as well. -/
def FairRefill (t₀ : ℚ) (b : TokenBucket) (now rateAt : ℚ) : Prop :=
  Timely t₀ b now rateAt ∨ L.capacity ≤ b.tokens + (allowance L t₀ now - allowance L t₀ (max b.last t₀))

/-- A call refills fairly, and none at the time of the 429 puts tokens back. -/
def Fair (t₀ : ℚ) (t : Transition Clocked Call) : Prop :=
  ∀ now rateAt tokens, t.label = .acquire now rateAt tokens → FairRefill L t₀ t.before.bucket now rateAt ∧ (now = t₀ → 0 ≤ tokens)

/-- The tokens granted after `a`, up to `b`. -/
def grantedAfter (a b : ℚ) (ts : List (Transition Clocked Call)) : ℚ :=
  ((ts.filter (fun t => a < t.label.now ∧ t.label.now ≤ b)).map (grantedBy L)).sum

/-- The tokens of a bucket as a stock that starts with the 429. -/
def meterFrom (t₀ : ℚ) : Meter Clocked Call ℚ ℚ := { meter L with last := fun s => max s.bucket.last t₀ }

end

/-! ## The two rates -/

section
variable {t₀ x y : ℚ}

theorem weight_of_le (h : x ≤ t₀ + 300) : weight t₀ x = (x - t₀) / 2 := by
  rw [weight, min_eq_left (by linarith), max_eq_right (by linarith), add_zero]

theorem weight_of_ge (h : t₀ + 300 ≤ x) : weight t₀ x = x - t₀ - 150 := by
  rw [weight, min_eq_right (by linarith), max_eq_left (by linarith)]
  linarith

theorem weight_mono (t₀ : ℚ) : Monotone (weight t₀) := by
  intro x y hxy
  have hmin : min (x - t₀) 300 ≤ min (y - t₀) 300 := min_le_min (sub_le_sub_right hxy _) le_rfl
  have hmax : max (x - t₀ - 300) 0 ≤ max (y - t₀ - 300) 0 :=
    max_le_max (sub_le_sub_right (sub_le_sub_right hxy _) _) le_rfl
  unfold weight
  linarith

/-- Time counts in full at most, and for less if some of it lies in the penalty. -/
theorem weight_sub_le (hxy : x ≤ y) : weight t₀ y - weight t₀ x ≤ y - x := by
  rcases le_total x (t₀ + 300) with hx | hx
  · rw [weight_of_le hx]
    rcases le_total y (t₀ + 300) with hy | hy
    · rw [weight_of_le hy]
      linarith
    · rw [weight_of_ge hy]
      linarith
  · rw [weight_of_ge hx, weight_of_ge (hx.trans hxy)]
    linarith

theorem weight_sub_lt (hxy : x < y) (hx : x < t₀ + 300) : weight t₀ y - weight t₀ x < y - x := by
  rw [weight_of_le hx.le]
  rcases le_total y (t₀ + 300) with hy | hy
  · rw [weight_of_le hy]
    linarith
  · rw [weight_of_ge hy]
    linarith

variable {L : Limits} {b : TokenBucket} {now rateAt : ℚ}

theorem allowance_eq (L : Limits) (t₀ t : ℚ) : allowance L t₀ t = L.refillPerS * weight t₀ t := by
  unfold allowance weight
  ring

theorem allowance_mono (L : Limits) (t₀ : ℚ) : Monotone (allowance L t₀) := by
  intro x y hxy
  rw [allowance_eq, allowance_eq]
  exact mul_le_mul_of_nonneg_left (weight_mono t₀ hxy) L.pos.le

theorem allowance_self (L : Limits) (t₀ : ℚ) : allowance L t₀ t₀ = 0 := by
  rw [allowance_eq, weight_of_le (by linarith), sub_self, zero_div, mul_zero]

theorem refillRateNow_of_lt (h : rateAt < b.penaltyUntil) : refillRateNow L b rateAt = L.refillPerS * (1 / 2) := by
  rw [refillRateNow, if_pos h, penaltyDivisor]
  ring

theorem refillRateNow_of_ge (h : b.penaltyUntil ≤ rateAt) : refillRateNow L b rateAt = L.refillPerS := by
  rw [refillRateNow, if_neg (not_lt.mpr h)]

/-- The credit of a call is no more than the rates since the 429 give exactly when it comes in time. -/
theorem credit_le_iff (huntil : b.penaltyUntil = t₀ + 300) (hlast : b.last ≤ now) (ht₀ : t₀ ≤ now) (hrate : now ≤ rateAt) :
    (now - b.last) * refillRateNow L b rateAt ≤ allowance L t₀ now - allowance L t₀ (max b.last t₀) ↔ Timely t₀ b now rateAt := by
  have hmax : max b.last t₀ ≤ now := max_le hlast ht₀
  rw [allowance_eq, allowance_eq, ← mul_sub]
  by_cases hpen : rateAt < t₀ + 300
  · have hnow : now ≤ t₀ + 300 := hrate.trans hpen.le
    rw [refillRateNow_of_lt (by rwa [huntil]), mul_left_comm, mul_le_mul_iff_right₀ L.pos, weight_of_le hnow,
      weight_of_le (hmax.trans hnow)]
    refine ⟨fun h => ⟨?_,Or.inl hpen⟩,fun ⟨h,_⟩ => ?_⟩
    · have hle : max b.last t₀ ≤ b.last := by linarith
      exact (le_max_right _ _).trans hle
    · rw [max_eq_left h]
      linarith
  · rw [refillRateNow_of_ge (by rw [huntil]; exact not_lt.mp hpen), mul_comm, mul_le_mul_iff_right₀ L.pos]
    constructor
    · intro h
      have hstart : t₀ ≤ b.last := by
        have hslope := @weight_sub_le t₀ _ _ hmax
        have hle : max b.last t₀ ≤ b.last := by linarith
        exact (le_max_right _ _).trans hle
      refine ⟨hstart,Or.inr ?_⟩
      by_contra hlate
      rw [not_or, not_le] at hlate
      rw [max_eq_left hstart] at h
      have hslope := weight_sub_lt (lt_of_le_of_ne hlast hlate.2) hlate.1
      linarith
    · rintro ⟨hstart,hpast | hpast | hpast⟩
      · exact absurd hpast hpen
      · rw [max_eq_left hstart, weight_of_ge hpast, weight_of_ge (hpast.trans hlast)]
        linarith
      · rw [max_eq_left hstart, hpast, sub_self, sub_self]

/-- A refill leaves no more than the rates since the 429 give exactly when it is fair. -/
theorem refilled_le_iff (huntil : b.penaltyUntil = t₀ + 300) (hlast : b.last ≤ now) (ht₀ : t₀ ≤ now) (hrate : now ≤ rateAt) :
    refilled L b now rateAt ≤ b.tokens + (allowance L t₀ now - allowance L t₀ (max b.last t₀)) ↔ FairRefill L t₀ b now rateAt := by
  rw [refilled, max_eq_right (sub_nonneg.mpr hlast), min_le_iff, add_le_add_iff_left, credit_le_iff huntil hlast ht₀ hrate,
    FairRefill, or_comm]

end

/-! ## Runs after a 429 -/

section
variable {L : Limits} {t₀ : ℚ} {s s' : Clocked} {t : Transition Clocked Call} {ts : List (Transition Clocked Call)}

/-- The penalty of a 429 at `t₀` is the last one, and the clock is past it. -/
structure Penalised (t₀ : ℚ) (s : Clocked) : Prop where
  sound : Sound s
  until_eq : s.bucket.penaltyUntil = t₀ + 300
  started : t₀ ≤ s.clock

theorem Penalised.step {now rateAt : ℚ} {tokens : ℤ} (hp : Penalised t₀ s) (h : CallStep L s (.acquire now rateAt tokens) s') :
    Penalised t₀ s' := by
  refine ⟨h.sound hp.sound,?_,hp.started.trans (h.clock_le_now.trans h.now_le_clock)⟩
  obtain ⟨-,-,rfl⟩ := h
  rw [(acquire_spec L s.bucket now rateAt tokens).2.2]
  exact hp.until_eq

theorem penalised_of_trace (h : Trace (CallStep L) s ts s') (hp : Penalised t₀ s)
    (hno : ∀ t ∈ ts, ∀ now, t.label ≠ .record429 now) : ∀ t ∈ ts, Penalised t₀ t.before := by
  refine fun t ht => ((h.invariant (I := Penalised t₀) (C := fun t => ∀ now, t.label ≠ .record429 now) hp ?_ hno).2 t ht).1
  rintro ⟨before,label,after⟩ hstep hlabel hp
  cases label with
  | acquire now rateAt tokens => exact hp.step hstep
  | record429 now => exact absurd rfl (hlabel now)

/-- A fair call draws from a stock that fills at the rates since the 429. -/
theorem draws_of_fair (h : CallStep L t.before t.label t.after) (hp : Penalised t₀ t.before)
    (hlabel : ∀ now, t.label ≠ .record429 now) (hf : Fair L t₀ t) : Draws (meterFrom L t₀) (allowance L t₀) t := by
  obtain ⟨before,label,after⟩ := t
  cases label with
  | record429 now => exact absurd rfl (hlabel now)
  | acquire now rateAt tokens =>
    dsimp only at h hp
    obtain ⟨hclock,hrate,rfl⟩ := h
    obtain ⟨hsum,hlast,-⟩ := acquire_spec L before.bucket now rateAt tokens
    have hforward : before.bucket.last ≤ now := hp.sound.stamped.trans hclock
    have hstarted : t₀ ≤ now := hp.started.trans hclock
    refine ⟨max_le hforward hstarted,?_,acquire_tokens_nonneg hp.sound.solvent,?_⟩
    · change max (acquire L before.bucket now rateAt tokens).2.last t₀ = now
      rw [hlast, max_eq_left hstarted]
    · change granted L before.bucket now rateAt tokens + (acquire L before.bucket now rateAt tokens).2.tokens ≤
        before.bucket.tokens + (allowance L t₀ now - allowance L t₀ (max before.bucket.last t₀))
      rw [hsum]
      exact (refilled_le_iff hp.until_eq hforward hstarted hrate).mpr (hf now rateAt tokens rfl).1

theorem clock_le_of_trace (h : Trace (CallStep L) s ts s') : s.clock ≤ s'.clock ∧ ∀ t ∈ ts, t.label.now ≤ s'.clock := by
  induction h with
  | nil => exact ⟨le_rfl,by simp⟩
  | @snoc ts s u call h hs ih =>
    obtain ⟨hle,hnow⟩ := ih
    have hstep := hs.clock_le_now.trans hs.now_le_clock
    refine ⟨hle.trans hstep,fun t ht => ?_⟩
    rcases List.mem_append.mp ht with hold | hnew
    · exact (hnow t hold).trans hstep
    · rw [List.mem_singleton.mp hnew]
      exact hs.now_le_clock

/-- The calls up to the 429 do not count after it. -/
theorem grantedAfter_eq {pre post : List (Transition Clocked Call)} {time : ℚ} (h : Trace (CallStep L) s (pre ++ t :: post) s')
    (ht : t.label = .record429 t₀) : grantedAfter L t₀ time (pre ++ t :: post) = grantedAfter L t₀ time post := by
  have hnow : t.label.now = t₀ := by rw [ht]; rfl
  have hstep := h.mem_step t (by simp)
  have hpre : pre.filter (fun u => t₀ < u.label.now ∧ u.label.now ≤ time) = [] := by
    refine List.filter_eq_nil_iff.mpr (fun u hu hin => ?_)
    have hle := ((clock_le_of_trace h.take).2 u hu).trans hstep.clock_le_now
    rw [hnow] at hle
    simp only [decide_eq_true_eq] at hin
    exact absurd hin.1 (not_lt.mpr hle)
  rw [grantedAfter, List.filter_append, hpre, List.nil_append, List.filter_cons_of_neg, grantedAfter]
  simp [hnow]

end

/-- After a 429 that is not repeated, a bucket grants no more than half its rate for five minutes and its rate from then
on, as long as every call refills fairly. -/
theorem penalty_bounds_grants (L : Limits) (now₀ : ℚ) {pre post : List (Transition Clocked Call)} {t : Transition Clocked Call}
    {s : Clocked} {t₀ : ℚ} (h : Trace (CallStep L) (start L now₀) (pre ++ t :: post) s) (ht : t.label = .record429 t₀)
    (hno : ∀ u ∈ post, ∀ now, u.label ≠ .record429 now) (hfair : ∀ u ∈ post, Fair L t₀ u) : ∀ time, t₀ < time → grantedAfter L t₀ time (pre ++ t :: post) ≤
      L.refillPerS / 2 * min (time - t₀) 300 + L.refillPerS * max (time - t₀ - 300) 0 := by
  intro time htime
  have hsound := (sound_of_trace h.take (sound_start L now₀)).1
  have hstep := h.mem_step t (by simp)
  rw [ht] at hstep
  obtain ⟨hclock,hafter⟩ := hstep
  have hlast : max t.after.bucket.last t₀ = t₀ := by
    rw [hafter]
    exact max_eq_right (hsound.stamped.trans hclock)
  have hp : Penalised t₀ t.after := by
    rw [hafter]
    exact ⟨⟨hsound.stamped.trans hclock,le_rfl⟩,rfl,le_rfl⟩
  have hall := penalised_of_trace h.drop hp hno
  have hdraws : ∀ u ∈ post, Draws (meterFrom L t₀) (allowance L t₀) u := fun u hu =>
    draws_of_fair (h.drop.mem_step u hu) (hall u hu) (hno u hu) (hfair u hu)
  have hbound : drawn (meterFrom L t₀) t₀ time post ≤ 0 + (allowance L t₀ time - allowance L t₀ t₀) := by
    refine drawn_le h.drop (allowance_mono L t₀) htime.le ?_ ?_ hdraws (fun u _ hlt => ?_)
    · exact hp.sound.solvent
    · rw [hafter]
      exact le_rfl
    · exact absurd hlt (not_lt.mpr (le_max_right _ _))
  have hsplit : grantedAfter L t₀ time post ≤ drawn (meterFrom L t₀) t₀ time post := by
    refine drawn_after_le (m := meterFrom L t₀) (fun u hu hstart => ?_)
    obtain ⟨before,label,after⟩ := u
    cases label with
    | record429 now => exact le_rfl
    | acquire now rateAt tokens => exact granted_nonneg ((hfair _ hu now rateAt tokens rfl).2 hstart)
  rw [grantedAfter_eq h ht]
  rw [allowance_self, sub_zero, zero_add] at hbound
  exact hsplit.trans hbound

/-! ## A bucket of ten that refills once a second -/

def tenTokens : Limits := Limits.of 60 10

/-- A 429 at 10 s. -/
def limited (s : Clocked) : Transition Clocked Call := ⟨s,.record429 10,⟨record429 s.bucket 10,10⟩⟩

def beforeLimit : Transition Clocked Call := callAt tenTokens (start tenTokens 0) 10 1

def afterLimit : Transition Clocked Call := callAt tenTokens (limited beforeLimit.after).after 13 1

theorem penalty_trace : Trace (CallStep tenTokens) (start tenTokens 0)
    ([beforeLimit] ++ limited beforeLimit.after :: [afterLimit]) afterLimit.after :=
  ((Trace.single ⟨by decide,le_rfl,rfl⟩).snoc ⟨le_rfl,rfl⟩).snoc ⟨by decide,le_rfl,rfl⟩

/-- The bucket was drawn from right at the time of the 429. -/
theorem penalty_bounds_grants_example :
    grantedAfter tenTokens 10 13 ([beforeLimit] ++ limited beforeLimit.after :: [afterLimit]) = 1 ∧
    grantedAfter tenTokens 10 13 ([beforeLimit] ++ limited beforeLimit.after :: [afterLimit]) ≤
      tenTokens.refillPerS / 2 * min (13 - 10) 300 + tenTokens.refillPerS * max (13 - 10 - 300) 0 := by
  refine ⟨by decide +kernel,penalty_bounds_grants tenTokens 0 penalty_trace rfl ?_ ?_ 13 (by decide)⟩
  · intro u hu now
    rw [List.mem_singleton.mp hu]
    exact fun h => by cases h
  · intro u hu now rateAt tokens hcall
    rw [List.mem_singleton.mp hu] at hcall ⊢
    cases hcall
    exact ⟨Or.inl ⟨by decide +kernel,Or.inl (by decide +kernel)⟩,fun _ => zero_le_one⟩

/-- A call one second after the 429, where the last one was ten seconds before it. -/
def burstAfterLimit : Transition Clocked Call := callAt tenTokens (limited (start tenTokens 0)).after 11 5

/-- Five tokens are granted within a second. -/
theorem idle_time_granted : ¬ ∀ (L : Limits) (now₀ : ℚ) (pre post : List (Transition Clocked Call)) (t : Transition Clocked Call)
    (s : Clocked) (t₀ : ℚ), Trace (CallStep L) (start L now₀) (pre ++ t :: post) s → t.label = .record429 t₀ →
    (∀ u ∈ post, ∀ now, u.label ≠ .record429 now) → ∀ time, t₀ < time → grantedAfter L t₀ time (pre ++ t :: post) ≤
      L.refillPerS / 2 * min (time - t₀) 300 + L.refillPerS * max (time - t₀ - 300) 0 := by
  intro h
  have htrace : Trace (CallStep tenTokens) (start tenTokens 0) ([] ++ limited (start tenTokens 0) :: [burstAfterLimit])
      burstAfterLimit.after := (Trace.single ⟨by decide,rfl⟩).snoc ⟨by decide,le_rfl,rfl⟩
  have hbound := h _ _ _ _ _ _ 10 htrace rfl (fun u hu now => by
    rw [List.mem_singleton.mp hu]
    exact fun h => by cases h) 11 (by decide)
  have hgranted : ¬ grantedAfter tenTokens 10 11 ([] ++ limited (start tenTokens 0) :: [burstAfterLimit]) ≤
      tenTokens.refillPerS / 2 * min (11 - 10) 300 + tenTokens.refillPerS * max (11 - 10 - 300) 0 := by
    decide +kernel
  exact hgranted hbound

end Protek.Backpressure
