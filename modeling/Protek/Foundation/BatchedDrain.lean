import Mathlib.Order.Lattice

/-! # Draining in batches against a clock

A loop that deletes one batch after the other until a batch is empty, a statement fails
or the clock has come to the deadline. The world gives a reading of the clock at each
moment, and the error of the statement that is run there, if it fails.
-/
namespace Foundation.BatchedDrain

structure Moment (τ : Type*) where
  now : τ
  error : Option String

inductive Stop
  | deadline
  | empty
  | failed (text : String)
  deriving DecidableEq, Repr

/-- How a drain ended, what it removed, the first moment after it and the state it left. -/
structure Drained (σ : Type*) where
  stop : Stop
  removed : ℕ
  next : ℕ
  state : σ

variable {σ τ : Type*} [LinearOrder τ]

/-- `delete` gives the number of rows of its batch and the state without them. -/
def drain (world : ℕ → Moment τ) (deadline : τ) (delete : σ → ℕ × σ) : ℕ → ℕ → ℕ → σ → Option (Drained σ)
  | 0, _, _, _ => none
  | fuel + 1, k, removed, s =>
    if deadline ≤ (world k).now then some ⟨.deadline,removed,k + 1,s⟩
    else match (world k).error with
      | some text => some ⟨.failed text,removed,k + 1,s⟩
      | none =>
        if (delete s).1 = 0 then some ⟨.empty,removed,k + 1,(delete s).2⟩
        else drain world deadline delete fuel (k + 1) (removed + (delete s).1) (delete s).2

variable {world : ℕ → Moment τ} {deadline : τ} {delete : σ → ℕ × σ} {fuel k removed : ℕ} {s : σ} {r : Drained σ}

/-- A batch that is not empty leaves less to delete, so the loop ends. -/
theorem drain_isSome (size : σ → ℕ) (hdec : ∀ s, (delete s).1 ≠ 0 → size (delete s).2 < size s) (hfuel : size s < fuel) :
    (drain world deadline delete fuel k removed s).isSome = true := by
  induction fuel generalizing k removed s with
  | zero => exact absurd hfuel (Nat.not_lt_zero _)
  | succ fuel ih =>
    rw [drain]
    split
    · rfl
    · split
      · rfl
      · split
        · rfl
        · next hne =>
          have hlt := hdec s hne
          exact ih (by omega)

/-- Fuel beyond what a run needs makes no difference. -/
theorem drain_of_le {fuel' : ℕ} (h : drain world deadline delete fuel k removed s = some r) (hle : fuel ≤ fuel') :
    drain world deadline delete fuel' k removed s = some r := by
  induction fuel generalizing fuel' k removed s with
  | zero => cases h
  | succ fuel ih =>
    obtain ⟨fuel',rfl⟩ : ∃ n, fuel' = n + 1 := ⟨fuel' - 1,by omega⟩
    rw [drain] at h ⊢
    split
    · next hd => rwa [if_pos hd] at h
    · next hd =>
      rw [if_neg hd] at h
      split
      · next herr => rwa [herr] at h
      · next herr =>
        rw [herr] at h
        dsimp only at h
        split
        · next hz => rwa [if_pos hz] at h
        · next hz =>
          rw [if_neg hz] at h
          exact ih h (by omega)

/-- What a drain keeps, and what its end says: at the deadline the last reading was not before it, and an empty
batch came last where none was left. -/
theorem drain_spec {I : σ → Prop} (h : drain world deadline delete fuel k removed s = some r) (hI : I s)
    (hstep : ∀ s, I s → I (delete s).2) :
    I r.state ∧ k < r.next ∧ (r.stop = .deadline → deadline ≤ (world (r.next - 1)).now) ∧
      (r.stop = .empty → ∃ s', I s' ∧ (delete s').1 = 0 ∧ r.state = (delete s').2) := by
  induction fuel generalizing k removed s with
  | zero => cases h
  | succ fuel ih =>
    rw [drain] at h
    split at h
    · next hd =>
      cases h
      exact ⟨hI,Nat.lt_succ_self k,fun _ => hd,fun hstop => by cases hstop⟩
    · split at h
      · cases h
        exact ⟨hI,Nat.lt_succ_self k,fun hstop => by (cases hstop),fun hstop => by cases hstop⟩
      · split at h
        · next hz =>
          cases h
          exact ⟨hstep s hI,Nat.lt_succ_self k,fun hstop => by (cases hstop),fun _ => ⟨s,hI,hz,rfl⟩⟩
        · obtain ⟨hstate,hnext,hend⟩ := ih h (hstep s hI)
          exact ⟨hstate,by omega,hend⟩

end Foundation.BatchedDrain
