import Mathlib.Logic.Function.Iterate
import Mathlib.Algebra.Order.Ring.Int
import Protek.Foundation.Trace

/-! # A shared counter without a lock

Any number of calls, each of which reads the counter and later writes back the value after
the one it has read, or is dropped on the way. When no call reads while another is between
its two steps, no count is lost and no value is given out twice; and when every call comes
to its end, a count is lost in every other order.
-/
namespace Foundation.SharedCounter

inductive Call (α : Type*)
  | idle
  | holding (seen : α)
  | finished (wrote : α)
  | dropped
  deriving DecidableEq, Repr

structure State (ι α : Type*) where
  value : α
  calls : ι → Call α

def State.Free {ι α : Type*} (s : State ι α) : Prop := ∀ i seen, s.calls i ≠ .holding seen

inductive Action (ι : Type*)
  | read (i : ι)
  | write (i : ι)
  | drop (i : ι)
  deriving DecidableEq, Repr

def Action.isWrite {ι : Type*} : Action ι → Bool
  | .write _ => true
  | _ => false

def Action.isDrop {ι : Type*} : Action ι → Bool
  | .drop _ => true
  | _ => false

abbrev Move (ι α : Type*) := Transition (State ι α) (Action ι)

variable {ι α : Type*}

/-- A read comes when no call is between its read and its write. -/
def Exclusive (t : Move ι α) : Prop := ∀ i, t.label = .read i → t.before.Free

def writes (ts : List (Move ι α)) : ℕ := ts.countP (fun t => t.label.isWrite)

@[simp] theorem writes_append (ts us : List (Move ι α)) : writes (ts ++ us) = writes ts + writes us :=
  List.countP_append

variable [DecidableEq ι] {next : α → α} {μ : α → ℤ}

/-- `next` is what a call makes of the value it has read. -/
inductive Step (next : α → α) : State ι α → Action ι → State ι α → Prop
  | read {s : State ι α} {i : ι} (h : s.calls i = .idle) :
      Step next s (.read i) { s with calls := Function.update s.calls i (.holding s.value) }
  | write {s : State ι α} {i : ι} {seen : α} (h : s.calls i = .holding seen) :
      Step next s (.write i) ⟨next seen,Function.update s.calls i (.finished (next seen))⟩
  | drop {s : State ι α} {i : ι} (h : ∀ w, s.calls i ≠ .finished w) :
      Step next s (.drop i) { s with calls := Function.update s.calls i .dropped }

/-- A call comes out of an update as it was, or it is the one that was updated. -/
theorem update_cases {g : ι → Call α} {i j : ι} {c d : Call α} (h : Function.update g i c j = d) :
    (j = i ∧ c = d) ∨ (j ≠ i ∧ g j = d) := by
  rcases eq_or_ne j i with rfl | hne
  · exact Or.inl ⟨rfl,by rwa [Function.update_self] at h⟩
  · exact Or.inr ⟨hne,by rwa [Function.update_of_ne hne] at h⟩

/-! ## Calls one at a time

The rank `μ` goes up by one from each value to the next.
-/

/-- At most one call is between its steps, it has seen what is there, and the values given out differ. -/
structure Orderly (μ : α → ℤ) (s : State ι α) : Prop where
  current : ∀ i seen, s.calls i = .holding seen → seen = s.value
  alone : ∀ i j a b, s.calls i = .holding a → s.calls j = .holding b → i = j
  bounded : ∀ i w, s.calls i = .finished w → μ w ≤ μ s.value
  distinct : ∀ i j v w, s.calls i = .finished v → s.calls j = .finished w → μ v = μ w → i = j

theorem Orderly.step (hμ : ∀ a, μ (next a) = μ a + 1) {t : Move ι α} (h : Orderly μ t.before)
    (hs : Step next t.before t.label t.after) (hex : Exclusive t) :
    Orderly μ t.after ∧ t.after.value = next^[writes [t]] t.before.value := by
  obtain ⟨s,a,u⟩ := t
  dsimp only at h hs ⊢
  cases hs with
  | @read i hi =>
    have hfree : s.Free := hex i rfl
    refine ⟨⟨?_,?_,?_,?_⟩,rfl⟩
    · intro j seen hj
      rcases update_cases hj with ⟨-,heq⟩ | ⟨-,hj⟩
      · exact (Call.holding.inj heq).symm
      · exact absurd hj (hfree j seen)
    · intro j k a b hj hk
      rcases update_cases hj with ⟨hji,-⟩ | ⟨-,hj⟩
      · rcases update_cases hk with ⟨hki,-⟩ | ⟨-,hk⟩
        · exact hji.trans hki.symm
        · exact absurd hk (hfree k b)
      · exact absurd hj (hfree j a)
    · intro j w hj
      rcases update_cases hj with ⟨-,heq⟩ | ⟨-,hj⟩
      · cases heq
      · exact h.bounded j w hj
    · intro j k v w hj hk hvw
      rcases update_cases hj with ⟨-,heq⟩ | ⟨-,hj⟩
      · cases heq
      · rcases update_cases hk with ⟨-,heq⟩ | ⟨-,hk⟩
        · cases heq
        · exact h.distinct j k v w hj hk hvw
  | @write i seen hi =>
    have hseen := h.current i seen hi
    have hrank : μ (next seen) = μ s.value + 1 := by rw [hμ, hseen]
    have hnone : ∀ j b, j ≠ i → s.calls j ≠ .holding b := fun j b hne hj => hne (h.alone j i b seen hj hi)
    refine ⟨⟨?_,?_,?_,?_⟩,congrArg next hseen⟩
    · intro j b hj
      rcases update_cases hj with ⟨-,heq⟩ | ⟨hne,hj⟩
      · cases heq
      · exact absurd hj (hnone j b hne)
    · intro j k a b hj hk
      rcases update_cases hj with ⟨-,heq⟩ | ⟨hne,hj⟩
      · cases heq
      · exact absurd hj (hnone j a hne)
    · intro j w hj
      rcases update_cases hj with ⟨-,heq⟩ | ⟨-,hj⟩
      · rw [← Call.finished.inj heq]
      · have hw := h.bounded j w hj
        change μ w ≤ μ (next seen)
        omega
    · -- what the others have written is at most what the counter was, and so below the new value
      intro j k v w hj hk hvw
      rcases update_cases hj with ⟨hji,heq⟩ | ⟨-,hj'⟩
      · rcases update_cases hk with ⟨hki,-⟩ | ⟨-,hk'⟩
        · exact hji.trans hki.symm
        · have hw := h.bounded k w hk'
          rw [← Call.finished.inj heq] at hvw
          omega
      · rcases update_cases hk with ⟨-,heq⟩ | ⟨-,hk'⟩
        · have hv := h.bounded j v hj'
          rw [← Call.finished.inj heq] at hvw
          omega
        · exact h.distinct j k v w hj' hk' hvw
  | @drop i hi =>
    have hcases : ∀ {j d}, Function.update s.calls i .dropped j = d → d ≠ .dropped → s.calls j = d := by
      intro j d hj hd
      rcases update_cases hj with ⟨-,heq⟩ | ⟨-,hj⟩
      · exact absurd heq.symm hd
      · exact hj
    refine ⟨⟨?_,?_,?_,?_⟩,rfl⟩
    · exact fun j seen hj => h.current j seen (hcases hj (by simp))
    · exact fun j k a b hj hk => h.alone j k a b (hcases hj (by simp)) (hcases hk (by simp))
    · exact fun j w hj => h.bounded j w (hcases hj (by simp))
    · exact fun j k v w hj hk => h.distinct j k v w (hcases hj (by simp)) (hcases hk (by simp))

/-- Along exclusive reads the counter goes on once for each write. -/
theorem Orderly.trace (hμ : ∀ a, μ (next a) = μ a + 1) {s t : State ι α} {ts : List (Move ι α)} (h0 : Orderly μ s)
    (h : Trace (Step next) s ts t) (hex : ∀ x ∈ ts, Exclusive x) :
    Orderly μ t ∧ t.value = next^[writes ts] s.value := by
  induction h with
  | nil => exact ⟨h0,rfl⟩
  | @snoc ts u v a h hs ih =>
    obtain ⟨hu,hval⟩ := ih (fun x hx => hex x (List.mem_append_left _ hx))
    obtain ⟨hv,hstep⟩ := hu.step hμ (t := ⟨u,a,v⟩) hs (hex _ (by simp))
    refine ⟨hv,?_⟩
    dsimp only at hstep
    rw [hstep, hval, writes_append, add_comm, Function.iterate_add_apply]

theorem rank_iterate (hμ : ∀ a, μ (next a) = μ a + 1) (n : ℕ) (a : α) : μ (next^[n] a) = μ a + n := by
  induction n with
  | zero => simp
  | succ n ih =>
    rw [Function.iterate_succ_apply', hμ, ih, Nat.cast_succ, add_assoc]

/-- A call that begins now gives out a value above all that are there. -/
theorem Orderly.later (hμ : ∀ a, μ (next a) = μ a + 1) {s t : State ι α} {ts : List (Move ι α)} {i : ι} {w : α}
    (h0 : Orderly μ s) (hi : s.calls i = .idle) (h : Trace (Step next) s ts t) (hex : ∀ x ∈ ts, Exclusive x)
    (hw : t.calls i = .finished w) : μ s.value < μ w := by
  suffices key : ∀ w, t.calls i = .finished w → μ s.value < μ w from key w hw
  clear hw w
  induction h with
  | nil =>
    intro w hw
    cases hi.symm.trans hw
  | @snoc ts u v a h hs ih =>
    have hex' : ∀ x ∈ ts, Exclusive x := fun x hx => hex x (List.mem_append_left _ hx)
    obtain ⟨hu,hval⟩ := h0.trace hμ h hex'
    intro w hw
    cases hs with
    | read hj =>
      rcases update_cases hw with ⟨-,heq⟩ | ⟨-,hw⟩
      · cases heq
      · exact ih hex' w hw
    | @write j seen hj =>
      rcases update_cases hw with ⟨-,heq⟩ | ⟨-,hw⟩
      · rw [← Call.finished.inj heq, hμ, hu.current j seen hj, hval, rank_iterate hμ]
        omega
      · exact ih hex' w hw
    | drop hj =>
      rcases update_cases hw with ⟨-,heq⟩ | ⟨-,hw⟩
      · cases heq
      · exact ih hex' w hw

/-! ## What an overlap costs -/

/-- Nothing that is held or stored ranks above the count `k`. -/
def Within (μ : α → ℤ) (k : ℤ) (s : State ι α) : Prop := μ s.value ≤ k ∧ ∀ i seen, s.calls i = .holding seen → μ seen ≤ k

/-- Two calls between their steps, or one that has seen less than the count, or a counter behind
the count with nothing held that would bring it back. -/
inductive Lost (μ : α → ℤ) (k : ℤ) (s : State ι α) : Prop
  | overlap (i j : ι) (a b : α) (hne : i ≠ j) (hi : s.calls i = .holding a) (hj : s.calls j = .holding b)
  | stale (i : ι) (a : α) (hi : s.calls i = .holding a) (hlt : μ a < k)
  | behind (hv : μ s.value < k) (hall : ∀ i seen, s.calls i = .holding seen → μ seen < k)

theorem Within.step (hμ : ∀ a, μ (next a) = μ a + 1) {k : ℤ} {t : Move ι α} (h : Within μ k t.before)
    (hs : Step next t.before t.label t.after) : Within μ (k + writes [t]) t.after := by
  obtain ⟨s,a,u⟩ := t
  obtain ⟨hv,hall⟩ := h
  dsimp only at hv hall hs ⊢
  cases hs with
  | @read i hi =>
    have hk : writes [⟨s,.read i,{ s with calls := Function.update s.calls i (.holding s.value) }⟩] = 0 := rfl
    rw [hk, Nat.cast_zero, add_zero]
    refine ⟨hv,?_⟩
    intro j seen hj
    rcases update_cases hj with ⟨-,heq⟩ | ⟨-,hj⟩
    · exact Call.holding.inj heq ▸ hv
    · exact hall j seen hj
  | @write i seen hi =>
    have hseen := hall i seen hi
    have hk : writes [⟨s,.write i,⟨next seen,Function.update s.calls i (.finished (next seen))⟩⟩] = 1 := rfl
    rw [hk, Nat.cast_one]
    refine ⟨by dsimp only; rw [hμ]; omega,?_⟩
    intro j b hj
    rcases update_cases hj with ⟨-,heq⟩ | ⟨-,hj⟩
    · cases heq
    · have := hall j b hj
      omega
  | @drop i hi =>
    have hk : writes [⟨s,.drop i,{ s with calls := Function.update s.calls i .dropped }⟩] = 0 := rfl
    rw [hk, Nat.cast_zero, add_zero]
    refine ⟨hv,?_⟩
    intro j seen hj
    rcases update_cases hj with ⟨-,heq⟩ | ⟨-,hj⟩
    · cases heq
    · exact hall j seen hj

/-- What is lost stays lost: the call that is behind writes its value, and then the counter is behind. -/
theorem Lost.step (hμ : ∀ a, μ (next a) = μ a + 1) {k : ℤ} {t : Move ι α} (h : Lost μ k t.before)
    (hw : Within μ k t.before) (hs : Step next t.before t.label t.after) (hd : t.label.isDrop = false) :
    Lost μ (k + writes [t]) t.after := by
  obtain ⟨s,a,u⟩ := t
  dsimp only at h hw hs hd ⊢
  cases hs with
  | @read i hi =>
    have hk : writes [⟨s,.read i,{ s with calls := Function.update s.calls i (.holding s.value) }⟩] = 0 := rfl
    rw [hk, Nat.cast_zero, add_zero]
    have hkeep : ∀ {j b}, s.calls j = .holding b → Function.update s.calls i (.holding s.value) j = .holding b := by
      intro j b hj
      rw [Function.update_of_ne, hj]
      rintro rfl
      cases hi.symm.trans hj
    cases h with
    | overlap j l a b hne hj hl => exact .overlap j l a b hne (hkeep hj) (hkeep hl)
    | stale j a hj hlt => exact .stale j a (hkeep hj) hlt
    | behind hv hall =>
      refine .behind hv ?_
      intro j seen hj
      rcases update_cases hj with ⟨-,heq⟩ | ⟨-,hj⟩
      · exact Call.holding.inj heq ▸ hv
      · exact hall j seen hj
  | @write i seen hi =>
    have hk : writes [⟨s,.write i,⟨next seen,Function.update s.calls i (.finished (next seen))⟩⟩] = 1 := rfl
    rw [hk, Nat.cast_one]
    -- whoever is still between its steps has seen a count that this write was not part of
    have hstale : ∀ {j b}, j ≠ i → s.calls j = .holding b →
        Lost μ (k + 1) ⟨next seen,Function.update s.calls i (.finished (next seen))⟩ := by
      intro j b hne hj
      have := hw.2 j b hj
      exact .stale j b ((Function.update_of_ne hne _ _).trans hj) (by omega)
    have hbehind : μ seen < k → Lost μ (k + 1) ⟨next seen,Function.update s.calls i (.finished (next seen))⟩ := by
      intro hlt
      refine .behind (by dsimp only; rw [hμ]; omega) ?_
      intro l b hl
      rcases update_cases hl with ⟨-,heq⟩ | ⟨-,hl⟩
      · cases heq
      · have := hw.2 l b hl
        omega
    cases h with
    | overlap j l a b hne hj hl =>
      rcases eq_or_ne j i with rfl | hji
      · exact hstale hne.symm hl
      · exact hstale hji hj
    | stale j a hj hlt =>
      rcases eq_or_ne j i with rfl | hji
      · exact hbehind (Call.holding.inj (hj.symm.trans hi) ▸ hlt)
      · exact hstale hji hj
    | behind hv hall => exact hbehind (hall i seen hi)
  | @drop i hi => cases hd

theorem Within.trace (hμ : ∀ a, μ (next a) = μ a + 1) {k : ℤ} {s t : State ι α} {ts : List (Move ι α)}
    (h0 : Within μ k s) (h : Trace (Step next) s ts t) : Within μ (k + writes ts) t := by
  induction h with
  | nil => simpa [writes] using h0
  | @snoc ts u v a h hs ih =>
    rw [writes_append, Nat.cast_add, ← add_assoc]
    exact ih.step hμ (t := ⟨u,a,v⟩) hs

theorem Lost.trace (hμ : ∀ a, μ (next a) = μ a + 1) {k : ℤ} {s t : State ι α} {ts : List (Move ι α)}
    (h0 : Lost μ k s) (hw : Within μ k s) (h : Trace (Step next) s ts t)
    (hd : ∀ x ∈ ts, x.label.isDrop = false) : Lost μ (k + writes ts) t := by
  induction h with
  | nil => simpa [writes] using h0
  | @snoc ts u v a h hs ih =>
    have hl := ih (fun x hx => hd x (List.mem_append_left _ hx))
    rw [writes_append, Nat.cast_add, ← add_assoc]
    exact hl.step hμ (t := ⟨u,a,v⟩) (hw.trace hμ h) hs (hd _ (by simp))

/-- A call that holds a value, or has written the one after it. -/
def Carries (next : α → α) (s : State ι α) (i : ι) (a : α) : Prop :=
  s.calls i = .holding a ∨ s.calls i = .finished (next a)

theorem Carries.step {t : Move ι α} (hs : Step next t.before t.label t.after) (hd : t.label.isDrop = false) {i : ι} {a : α}
    (h : Carries next t.before i a) : Carries next t.after i a := by
  obtain ⟨s,b,u⟩ := t
  dsimp only at hs hd h ⊢
  cases hs with
  | @read j hj =>
    have hne : i ≠ j := by
      rintro rfl
      rcases h with h | h <;> cases hj.symm.trans h
    unfold Carries at h ⊢
    dsimp only
    rwa [Function.update_of_ne hne]
  | @write j seen hj =>
    rcases eq_or_ne i j with rfl | hne
    · rcases h with h | h
      · cases hj.symm.trans h
        exact Or.inr (Function.update_self _ _ _)
      · cases hj.symm.trans h
    · unfold Carries at h ⊢
      dsimp only
      rwa [Function.update_of_ne hne]
  | @drop j hj => cases hd

end Foundation.SharedCounter
