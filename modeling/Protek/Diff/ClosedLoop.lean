import Protek.Diff.Reconcile
import Protek.Foundation.CappedQueue
import Mathlib.Data.List.Perm.Lattice

/-! # The reconcile loop closed over a target

A cycle reads the target, diffs it and applies the first `cap` adds and the
first `cap` removals. The target gives every entry it accepts a fresh handle,
may refuse a fixed set of addresses, and lists its entries in any order. Seen
through the uncovered desired values the loop is a capped queue with refusals.
-/
namespace Protek.Diff
open Foundation Foundation.OrderedDict Foundation.PyText

def HandlesDistinct (s : List Entry) : Prop := (s.map Entry.eid).Nodup ∧ ∀ e ∈ s, e.eid ≠ ""

def foreign (s : List Entry) : List Entry := s.filter (fun e => !isOwned e.comment)

/-- `diff.to_add[:batch_cap]` less the adds the target refuses. -/
def acceptedAdds (U : CaseMap) (desired : List Decision) (cap : ℕ) (refuses : String → Bool) (s : List Entry) :
    List (String × String) :=
  ((reconcile U desired s).toAdd.take cap).filter (fun p => !refuses p.1)

/-- One cycle of `reconcile` and a capped `apply`. -/
def Cycle (U : CaseMap) (desired : List Decision) (cap : ℕ) (refuses : String → Bool) (s t : List Entry) : Prop :=
  ∃ added : List Entry,
    added.map (fun e => (e.address,e.comment)) =
      (acceptedAdds U desired cap refuses s).map (fun p => (some p.1,some p.2)) ∧
    HandlesDistinct (s ++ added) ∧
    t.Perm (s.filter (fun e => e.eid ∉ (reconcile U desired s).toRemove.take cap) ++ added)

def uncovered (U : CaseMap) (desired : List Decision) (s : List Entry) : List String :=
  (desiredKeys desired).filter (fun k => normalizeAddr U (some k) ∉ ownedAddrs U s)

def stale (U : CaseMap) (desired : List Decision) (s : List Entry) : List Entry :=
  s.filter (fun e => IsStale U desired e)

section
variable {U : CaseMap} {desired : List Decision} {cap : ℕ} {refuses : String → Bool} {s t : List Entry}

theorem mem_ownedAddrs {a : String} :
    a ∈ ownedAddrs U s ↔ ∃ e ∈ s, isOwned e.comment = true ∧ normalizeAddr U e.address = a := by
  simp [ownedAddrs, and_assoc]

theorem ownedAddrs_perm {a : String} (h : s.Perm t) : a ∈ ownedAddrs U s ↔ a ∈ ownedAddrs U t := by
  rw [mem_ownedAddrs, mem_ownedAddrs]
  simp only [h.mem_iff]

theorem Cycle.handlesDistinct (h : Cycle U desired cap refuses s t) : HandlesDistinct t := by
  obtain ⟨added,_,⟨hnodup,hne⟩,hperm⟩ := h
  have hsub : (s.filter (fun e => e.eid ∉ (reconcile U desired s).toRemove.take cap) ++ added).Sublist
      (s ++ added) := List.filter_sublist.append_right added
  refine ⟨(hperm.map Entry.eid).nodup_iff.mpr ((hsub.map Entry.eid).nodup hnodup),?_⟩
  intro e he
  exact hne e (hsub.subset (hperm.mem_iff.mp he))

theorem map_fst_acceptedAdds :
    (acceptedAdds U desired cap refuses s).map Prod.fst =
      CappedQueue.admitted refuses cap (uncovered U desired s) := by
  rw [CappedQueue.admitted, uncovered, ← map_fst_toAdd, ← List.map_take, List.filter_map]
  rfl

/-- What a cycle may add: owned entries at uncovered desired addresses. -/
theorem added_spec {added : List Entry}
    (h : added.map (fun e => (e.address,e.comment)) =
      (acceptedAdds U desired cap refuses s).map (fun p => (some p.1,some p.2))) :
    (∀ e ∈ added, isOwned e.comment = true ∧
      ∃ k ∈ CappedQueue.admitted refuses cap (uncovered U desired s), e.address = some k) ∧
    ∀ k ∈ CappedQueue.admitted refuses cap (uncovered U desired s), ∃ e ∈ added, e.address = some k := by
  constructor
  · intro e he
    have hp : (e.address,e.comment) ∈ (acceptedAdds U desired cap refuses s).map (fun p => (some p.1,some p.2)) :=
      h ▸ List.mem_map.mpr ⟨e,he,rfl⟩
    obtain ⟨p,hp,heq⟩ := List.mem_map.mp hp
    obtain ⟨haddr,hcomment⟩ := Prod.mk.inj heq
    refine ⟨?_,p.1,map_fst_acceptedAdds ▸ List.mem_map.mpr ⟨p,hp,rfl⟩,haddr.symm⟩
    rw [← hcomment]
    exact isOwned_of_mem_toAdd (List.mem_of_mem_take (List.mem_filter.mp hp).1)
  · intro k hk
    rw [← map_fst_acceptedAdds] at hk
    obtain ⟨p,hp,rfl⟩ := List.mem_map.mp hk
    have hm : (some p.1,some p.2) ∈ added.map (fun e => (e.address,e.comment)) :=
      h ▸ List.mem_map.mpr ⟨p,hp,rfl⟩
    obtain ⟨e,he,heq⟩ := List.mem_map.mp hm
    exact ⟨e,he,(Prod.mk.inj heq).1⟩

/-- A removal handle names a stale entry, so no other entry has it. -/
theorem eid_not_mem_toRemove (cap : ℕ) (hs : HandlesDistinct s) {e : Entry} (he : e ∈ s) (hlive : ¬ IsStale U desired e) :
    e.eid ∉ (reconcile U desired s).toRemove.take cap := by
  intro hmem
  obtain ⟨e',he',hstale,heid,_⟩ := mem_toRemove (List.mem_of_mem_take hmem)
  have hsame : e' = e := List.inj_on_of_nodup_map hs.1 he' he heid
  exact hlive (hsame ▸ hstale)

theorem mem_uncovered {k : String} :
    k ∈ uncovered U desired s ↔ k ∈ desiredKeys desired ∧ normalizeAddr U (some k) ∉ ownedAddrs U s := by
  simp [uncovered]

theorem mem_stale {e : Entry} : e ∈ stale U desired s ↔ e ∈ s ∧ IsStale U desired e := by simp [stale]

theorem admitted_desired {k : String} (hk : k ∈ CappedQueue.admitted refuses cap (uncovered U desired s)) :
    normalizeAddr U (some k) ∈ desiredNorm U desired :=
  mem_desiredNorm.mpr ⟨k,(mem_uncovered.mp (List.mem_of_mem_take (CappedQueue.mem_admitted.mp hk).1)).1,rfl⟩

/-- On desired addresses a cycle adds exactly what it admits and removes nothing. -/
theorem Cycle.mem_ownedAddrs_iff (h : Cycle U desired cap refuses s t) (hs : HandlesDistinct s) {a : String}
    (ha : a ∈ desiredNorm U desired) :
    a ∈ ownedAddrs U t ↔ a ∈ ownedAddrs U s ∨
      a ∈ (CappedQueue.admitted refuses cap (uncovered U desired s)).map (fun k => normalizeAddr U (some k)) := by
  obtain ⟨added,hadded,_,hperm⟩ := h
  obtain ⟨hfrom,honto⟩ := added_spec hadded
  rw [ownedAddrs_perm hperm, mem_ownedAddrs, mem_ownedAddrs]
  constructor
  · rintro ⟨e,he,howned,rfl⟩
    rcases List.mem_append.mp he with he | he
    · exact Or.inl ⟨e,(List.mem_filter.mp he).1,howned,rfl⟩
    · obtain ⟨_,k,hk,haddr⟩ := hfrom e he
      exact Or.inr (List.mem_map.mpr ⟨k,hk,by rw [haddr]⟩)
  · rintro (⟨e,he,howned,rfl⟩ | hadm)
    · refine ⟨e,List.mem_append_left _ (List.mem_filter.mpr ⟨he,?_⟩),howned,rfl⟩
      simpa using eid_not_mem_toRemove cap hs he (fun hstale => hstale.2 ha)
    · obtain ⟨k,hk,rfl⟩ := List.mem_map.mp hadm
      obtain ⟨e,he,haddr⟩ := honto k hk
      exact ⟨e,List.mem_append_right _ he,(hfrom e he).1,by rw [haddr]⟩

/-- The uncovered values move as a capped queue. -/
theorem Cycle.uncovered_eq (h : Cycle U desired cap refuses s t) (hs : HandlesDistinct s) :
    uncovered U desired t = CappedQueue.next (fun k => normalizeAddr U (some k)) refuses cap (uncovered U desired s) := by
  have hfilter : ∀ P : String → Bool, (uncovered U desired s).filter P =
      (desiredKeys desired).filter (fun k => P k && decide (normalizeAddr U (some k) ∉ ownedAddrs U s)) :=
    fun _ => List.filter_filter
  rw [CappedQueue.next, hfilter, uncovered]
  apply List.filter_congr
  intro k hk
  have := h.mem_ownedAddrs_iff hs (mem_desiredNorm.mpr ⟨k,hk,rfl⟩)
  simp only [this, not_or, Bool.decide_and, Bool.and_comm]

theorem Cycle.stale_perm (h : Cycle U desired cap refuses s t) :
    (stale U desired t).Perm
      ((stale U desired s).filter (fun e => e.eid ∉ (reconcile U desired s).toRemove.take cap)) := by
  obtain ⟨added,hadded,_,hperm⟩ := h
  have hnone : stale U desired added = [] := by
    refine List.filter_eq_nil_iff.mpr (fun e he => ?_)
    obtain ⟨_,k,hk,haddr⟩ := (added_spec hadded).1 e he
    simpa [IsStale, haddr] using fun _ => admitted_desired hk
  have hp := hperm.filter (fun e => decide (IsStale U desired e))
  rw [List.filter_append] at hp
  change (stale U desired t).Perm (_ ++ stale U desired added) at hp
  rwa [hnone, List.append_nil, List.filter_comm] at hp

theorem Cycle.foreign_perm (h : Cycle U desired cap refuses s t) (hs : HandlesDistinct s) :
    (foreign t).Perm (foreign s) := by
  obtain ⟨added,hadded,_,hperm⟩ := h
  have hnone : foreign added = [] :=
    List.filter_eq_nil_iff.mpr (fun e he => by simp [((added_spec hadded).1 e he).1])
  have hp := hperm.filter (fun e => !isOwned e.comment)
  rw [List.filter_append] at hp
  change (foreign t).Perm (_ ++ foreign added) at hp
  rw [hnone, List.append_nil, List.filter_comm] at hp
  rwa [List.filter_eq_self.mpr] at hp
  intro e he
  obtain ⟨hmem,hforeign⟩ := List.mem_filter.mp he
  have hnot : ¬ IsStale U desired e := fun hstale => by simp [hstale.1] at hforeign
  simpa using eid_not_mem_toRemove cap hs hmem hnot

/-- With an empty diff a cycle changes nothing. -/
theorem Cycle.perm_of_empty (h : Cycle U desired cap refuses s t) (hu : uncovered U desired s = [])
    (hst : stale U desired s = []) : t.Perm s := by
  obtain ⟨added,hadded,⟨_,hne⟩,hperm⟩ := h
  have hno : added = [] := by
    refine List.eq_nil_iff_forall_not_mem.mpr (fun e he => ?_)
    obtain ⟨_,k,hk,_⟩ := (added_spec hadded).1 e he
    simp [hu, CappedQueue.admitted] at hk
  rw [hno, List.append_nil, List.filter_eq_self.mpr] at hperm
  · exact hperm
  · intro e _
    simp only [decide_eq_true_eq]
    intro hmem
    obtain ⟨e',he',hstale,_⟩ := mem_toRemove (List.mem_of_mem_take hmem)
    have : e' ∈ stale U desired s := mem_stale.mpr ⟨he',hstale⟩
    simp [hst] at this

end
end Protek.Diff
