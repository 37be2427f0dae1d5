import Protek.Diff.ClosedLoop

/-! # Convergence and starvation of the reconcile loop

A target that accepts every operation settles: uncovered values and stale
entries only shrink, and while either is left a cycle shrinks one of them. A
target that refuses addresses still receives every other desired address exactly
when the refused ones never fill the front of the add list.
-/
namespace Protek.Diff
open Foundation Foundation.PyText

/-- Nothing left to do: the owned addresses are the desired ones and the diff is empty. -/
def Settled (U : CaseMap) (desired : List Decision) (s : List Entry) : Prop :=
  (∀ a, a ∈ ownedAddrs U s ↔ a ∈ desiredNorm U desired) ∧
  (reconcile U desired s).toAdd = [] ∧ (reconcile U desired s).toRemove = []

def pendingOps (U : CaseMap) (desired : List Decision) (s : List Entry) : ℕ :=
  (uncovered U desired s).length + (stale U desired s).length

section
variable {U : CaseMap} {desired : List Decision} {cap : ℕ} {refuses : String → Bool} {s t : List Entry}

theorem settled_of_done (hu : uncovered U desired s = []) (hst : stale U desired s = []) :
    Settled U desired s := by
  refine ⟨fun a => ⟨fun ha => ?_,fun ha => ?_⟩,?_,?_⟩
  · obtain ⟨e,he,howned,rfl⟩ := mem_ownedAddrs.mp ha
    by_contra hno
    have : e ∈ stale U desired s := mem_stale.mpr ⟨he,howned,hno⟩
    simp [hst] at this
  · obtain ⟨k,hk,rfl⟩ := mem_desiredNorm.mp ha
    by_contra hno
    have : k ∈ uncovered U desired s := mem_uncovered.mpr ⟨hk,hno⟩
    simp [hu] at this
  · exact List.map_eq_nil_iff.mp ((map_fst_toAdd desired s).trans hu)
  · refine List.eq_nil_iff_forall_not_mem.mpr (fun h hh => ?_)
    obtain ⟨e,he,hstale,_⟩ := mem_toRemove hh
    have : e ∈ stale U desired s := mem_stale.mpr ⟨he,hstale⟩
    simp [hst] at this

theorem handlesDistinct_run {s : ℕ → List Entry} (h0 : HandlesDistinct (s 0))
    (hcycle : ∀ n, Cycle U desired cap refuses (s n) (s (n + 1))) (n : ℕ) : HandlesDistinct (s n) := by
  cases n with
  | zero => exact h0
  | succ n => exact (hcycle n).handlesDistinct

/-- While anything is left to do, a cycle on an accepting target leaves less to do. -/
theorem Cycle.pendingOps_lt (hcap : 1 ≤ cap) (h : Cycle U desired cap (fun _ => false) s t) (hs : HandlesDistinct s)
    (hleft : ¬ (uncovered U desired s = [] ∧ stale U desired s = [])) :
    pendingOps U desired t < pendingOps U desired s := by
  have hu := h.uncovered_eq hs
  have hule : (uncovered U desired t).length ≤ (uncovered U desired s).length :=
    hu ▸ (CappedQueue.next_sublist _).length_le
  have hsle : (stale U desired t).length ≤ (stale U desired s).length :=
    h.stale_perm.length_eq ▸ List.length_filter_le _ _
  unfold pendingOps
  by_cases hun : uncovered U desired s = []
  · -- only stale entries are left, and the first removal of the batch takes one
    obtain ⟨e,he⟩ := List.exists_mem_of_ne_nil _ (fun hst => hleft ⟨hun,hst⟩)
    obtain ⟨hes,hstale⟩ := mem_stale.mp he
    obtain ⟨h1,rest,hrem⟩ := List.exists_cons_of_ne_nil (toRemove_ne_nil hs.2 hes hstale)
    obtain ⟨e',he',hstale',heid,_⟩ := mem_toRemove (h := h1) (hrem ▸ List.mem_cons_self)
    have hlt : ((stale U desired s).filter (fun e => e.eid ∉ (reconcile U desired s).toRemove.take cap)).length <
        (stale U desired s).length := by
      refine List.length_filter_lt_length_iff_exists.mpr ⟨e',mem_stale.mpr ⟨he',hstale'⟩,?_⟩
      obtain ⟨m,rfl⟩ : ∃ m, cap = m + 1 := ⟨cap - 1,by omega⟩
      simp [hrem, heid]
    have := h.stale_perm.length_eq
    omega
  · obtain ⟨k,rest,hk⟩ := List.exists_cons_of_ne_nil hun
    have hadm : k ∈ CappedQueue.admitted (fun _ => false) cap (uncovered U desired s) := by
      obtain ⟨m,rfl⟩ : ∃ m, cap = m + 1 := ⟨cap - 1,by omega⟩
      simp [CappedQueue.admitted, hk]
    have hlt : (uncovered U desired t).length < (uncovered U desired s).length :=
      hu ▸ CappedQueue.next_length_lt hadm
    omega

end

/-- On a target that performs every operation the loop settles after finitely many
cycles, keeps the foreign entries it started with, and then changes nothing. -/
theorem reconcile_loop_converges (U : CaseMap) (desired : List Decision) (cap : ℕ) (hcap : 1 ≤ cap)
    (s : ℕ → List Entry) (h0 : HandlesDistinct (s 0))
    (hcycle : ∀ n, Cycle U desired cap (fun _ => false) (s n) (s (n + 1))) :
    ∃ N, ∀ n, N ≤ n → Settled U desired (s n) ∧ (foreign (s n)).Perm (foreign (s 0)) ∧
      (s (n + 1)).Perm (s n) := by
  have hd := handlesDistinct_run h0 hcycle
  have hforeign : ∀ n, (foreign (s n)).Perm (foreign (s 0)) := by
    intro n
    induction n with
    | zero => exact List.Perm.refl _
    | succ n ih => exact ((hcycle n).foreign_perm (hd n)).trans ih
  obtain ⟨N,hN⟩ := eventually_stable (P := fun s => uncovered U desired s = [] ∧ stale U desired s = [])
    (pendingOps U desired) s (fun n => by
      by_cases hdone : uncovered U desired (s n) = [] ∧ stale U desired (s n) = []
      · exact Or.inl hdone
      · exact Or.inr ((hcycle n).pendingOps_lt hcap (hd n) hdone))
  have hkeep : ∀ n, uncovered U desired (s n) = [] ∧ stale U desired (s n) = [] →
      uncovered U desired (s (n + 1)) = [] ∧ stale U desired (s (n + 1)) = [] := by
    intro n hn
    have hu := (hcycle n).uncovered_eq (hd n)
    have hst := (hcycle n).stale_perm
    rw [hn.1] at hu
    rw [hn.2] at hst
    exact ⟨hu,hst.eq_nil⟩
  refine ⟨N,fun n hn => ?_⟩
  obtain ⟨hu,hst⟩ := stable_forever (P := fun s => uncovered U desired s = [] ∧ stale U desired s = []) hkeep hN n hn
  exact ⟨settled_of_done hu hst,hforeign n,(hcycle n).perm_of_empty hu hst⟩

/-- One ban, one stale entry and one foreign entry under a cap of one: settled after the first cycle. -/
def sampleRun : ℕ → List Entry
  | 0 => [{ id := some "*1", address := some "9.9.9.9", comment := some "office" },
      { id := some "*2", address := some "8.8.8.8", comment := some "protek:local:ssh-bf:7" }]
  | _ + 1 => [{ id := some "*1", address := some "9.9.9.9", comment := some "office" },
      { id := some "*3", address := some "1.1.1.1", comment := some "protek:local::0" }]

def sampleDesired : List Decision := [{ value := some "1.1.1.1" }]

theorem sampleRun_cycle (n : ℕ) :
    Cycle CaseMap.ascii sampleDesired 1 (fun _ => false) (sampleRun n) (sampleRun (n + 1)) := by
  cases n with
  | zero =>
    refine ⟨[{ id := some "*3", address := some "1.1.1.1", comment := some "protek:local::0" }],?_,?_,?_⟩
    · decide
    · unfold HandlesDistinct
      decide
    · decide
  | succ n =>
    change Cycle CaseMap.ascii sampleDesired 1 (fun _ => false) (sampleRun 1) (sampleRun 1)
    refine ⟨[],?_,?_,?_⟩
    · decide
    · unfold HandlesDistinct
      decide
    · decide

theorem reconcile_loop_converges_sample :
    1 ≤ 1 ∧ HandlesDistinct (sampleRun 0) ∧ ∃ N, ∀ n, N ≤ n → Settled CaseMap.ascii sampleDesired (sampleRun n) ∧
      (foreign (sampleRun n)).Perm (foreign (sampleRun 0)) ∧ (sampleRun (n + 1)).Perm (sampleRun n) := by
  have h0 : HandlesDistinct (sampleRun 0) := by
    unfold HandlesDistinct
    decide
  exact ⟨le_rfl,h0,reconcile_loop_converges CaseMap.ascii sampleDesired 1 le_rfl sampleRun h0 sampleRun_cycle⟩

/-- A target that refuses some addresses for good ends up with every other desired
address exactly when, in the initial add list, fewer than `cap` refused addresses
stand before each accepted one. -/
theorem accepted_addresses_arrive_iff (U : CaseMap) (desired : List Decision) (cap : ℕ) (refuses : String → Bool)
    (s : ℕ → List Entry) (h0 : HandlesDistinct (s 0))
    (hcycle : ∀ n, Cycle U desired cap refuses (s n) (s (n + 1))) :
    (∃ N, ∀ n, N ≤ n → ∀ k ∈ desiredKeys desired, refuses k = false →
      normalizeAddr U (some k) ∈ ownedAddrs U (s n)) ↔
    CappedQueue.Uncrowded (fun k => normalizeAddr U (some k)) refuses cap (uncovered U desired (s 0)) := by
  have hd := handlesDistinct_run h0 hcycle
  rw [← CappedQueue.eventually_cleared_iff (fun n => uncovered U desired (s n))
    (fun n => (hcycle n).uncovered_eq (hd n))]
  have hsame : ∀ n, (∀ k ∈ desiredKeys desired, refuses k = false →
      normalizeAddr U (some k) ∈ ownedAddrs U (s n)) ↔ CappedQueue.Cleared refuses (uncovered U desired (s n)) := by
    intro n
    constructor
    · intro h k hk
      obtain ⟨hkey,hno⟩ := mem_uncovered.mp hk
      by_contra hr
      exact hno (h k hkey (by simpa using hr))
    · intro h k hk hr
      by_contra hno
      have := h k (mem_uncovered.mpr ⟨hk,hno⟩)
      rw [hr] at this
      cases this
  simp only [hsame]

/-- The router holds a foreign 1.1.1.1 and reports "already have such entry" for it. -/
def pinnedState : List Entry := [{ id := some "*1", address := some "1.1.1.1", comment := some "office" }]

def pinnedDesired : List Decision := [{ value := some "1.1.1.1" },{ value := some "2.2.2.2" }]

theorem pinned_cycle : Cycle CaseMap.ascii pinnedDesired 1 (fun a => a = "1.1.1.1") pinnedState pinnedState := by
  refine ⟨[],?_,?_,?_⟩
  · decide
  · unfold HandlesDistinct
    decide
  · decide

theorem pinned_handlesDistinct : HandlesDistinct pinnedState := by
  unfold HandlesDistinct
  decide

theorem accepted_addresses_arrive_pinned :
    HandlesDistinct pinnedState ∧
    ((∃ N : ℕ, ∀ n, N ≤ n → ∀ k ∈ desiredKeys pinnedDesired, decide (k = "1.1.1.1") = false →
      normalizeAddr CaseMap.ascii (some k) ∈ ownedAddrs CaseMap.ascii pinnedState) ↔
    CappedQueue.Uncrowded (fun k => normalizeAddr CaseMap.ascii (some k)) (fun a => a = "1.1.1.1") 1
      (uncovered CaseMap.ascii pinnedDesired pinnedState)) :=
  ⟨pinned_handlesDistinct,accepted_addresses_arrive_iff CaseMap.ascii pinnedDesired 1 (fun a => a = "1.1.1.1")
    (fun _ => pinnedState) pinned_handlesDistinct (fun _ => pinned_cycle)⟩

/-- With a cap of one the refused 1.1.1.1 is the whole batch of every cycle and 2.2.2.2 never arrives. -/
theorem accepted_addresses_starve :
    ¬ ∀ (U : CaseMap) (desired : List Decision) (cap : ℕ) (refuses : String → Bool) (s : ℕ → List Entry),
      1 ≤ cap → HandlesDistinct (s 0) → (∀ n, Cycle U desired cap refuses (s n) (s (n + 1))) →
      ∃ N, ∀ k ∈ desiredKeys desired, refuses k = false → normalizeAddr U (some k) ∈ ownedAddrs U (s N) := by
  intro h
  obtain ⟨_,hN⟩ := h CaseMap.ascii pinnedDesired 1 (fun a => a = "1.1.1.1") (fun _ => pinnedState) le_rfl
    pinned_handlesDistinct (fun _ => pinned_cycle)
  have : normalizeAddr CaseMap.ascii (some "2.2.2.2") ∉ ownedAddrs CaseMap.ascii pinnedState := by decide
  exact this (hN "2.2.2.2" (by decide) (by decide))

end Protek.Diff
