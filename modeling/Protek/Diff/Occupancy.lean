import Protek.Diff.ClosedLoop
import Mathlib.Data.List.Perm.Subperm

/-! # How many entries a cycle leaves

With one owned entry for each address the removals of a cycle are the first stale
entries, so the owned entries after a cycle can be counted: the stale ones go down
by the cap, and the kept ones leave room for as many adds as values are uncovered.
-/
namespace Protek.Diff
open Foundation Foundation.OrderedDict Foundation.PyText

/-- The owned entries that the desired list keeps. -/
def kept (U : CaseMap) (desired : List Decision) (s : List Entry) : List Entry :=
  s.filter (fun e => isOwned e.comment ∧ normalizeAddr U e.address ∈ desiredNorm U desired)

section
variable {U : CaseMap} {desired : List Decision} {cap : ℕ} {s t : List Entry}

theorem length_desiredKeys_le (desired : List Decision) : (desiredKeys desired).length ≤ desired.length := by
  have hsub : desiredKeys desired ⊆ (desired.filter (fun d => desiredKey d ≠ "")).map desiredKey := by
    intro k hk
    rwa [desiredKeys, mem_firstKeys] at hk
  have hnodup : (desiredKeys desired).Nodup := firstKeys_nodup _
  have hle := (List.subperm_of_subset hnodup hsub).length_le
  rw [List.length_map] at hle
  exact hle.trans (List.length_filter_le _ _)

theorem ownedAddrs_perm_list (h : t.Perm s) : (ownedAddrs U t).Perm (ownedAddrs U s) := by
  unfold ownedAddrs
  exact (h.filter _).map _

theorem length_ownedAddrs (desired : List Decision) (s : List Entry) :
    (ownedAddrs U s).length = (stale U desired s).length + (kept U desired s).length := by
  unfold ownedAddrs stale kept
  induction s with
  | nil => rfl
  | cons e rest ih =>
    simp only [List.length_map] at ih ⊢
    by_cases ho : isOwned e.comment = true
    · by_cases hd : normalizeAddr U e.address ∈ desiredNorm U desired
      · simp [ho, hd, IsStale, ih]
        omega
      · simp [ho, hd, IsStale, ih]
        omega
    · simp [ho, IsStale, ih]

/-- With one owned entry for each address the removals are the stale entries, in order. -/
theorem toRemove_eq (hid : ∀ e ∈ s, e.eid ≠ "") (hd : (ownedAddrs U s).Nodup) :
    (reconcile U desired s).toRemove = (stale U desired s).map Entry.eid := by
  have hitems : ∀ p ∈ (ownedByAddr U s).items, p.2 ∈ s ∧ p.1 = normalizeAddr U p.2.address := by
    intro p hp
    obtain ⟨hmem,hkey⟩ := lastWith_some (mem_items_ofLast hp)
    exact ⟨(List.mem_filter.mp hmem).1,hkey.symm⟩
  have hsnd : (ownedByAddr U s).items.map Prod.snd = s.filter (fun e => isOwned e.comment) := by
    rw [ownedByAddr, map_snd_ofLast, lastByKey_of_nodup hd]
  have hrem : (reconcile U desired s).toRemove =
      ((ownedByAddr U s).items.map Prod.snd).filterMap (fun e =>
        if normalizeAddr U e.address ∈ desiredNorm U desired then none else some e.eid) := by
    rw [reconcile, List.filterMap_map]
    apply List.filterMap_congr
    intro p hp
    obtain ⟨hmem,hkey⟩ := hitems p hp
    simp only [Function.comp_apply, if_neg (hid _ hmem), hkey]
  rw [hrem, hsnd, stale]
  clear hrem hsnd hitems hid hd
  induction s with
  | nil => rfl
  | cons e rest ih =>
    by_cases ho : isOwned e.comment = true
    · by_cases hd : normalizeAddr U e.address ∈ desiredNorm U desired
      · simpa [ho, hd, IsStale] using ih
      · simpa [ho, hd, IsStale] using ih
    · simpa [ho, IsStale] using ih

/-- As many desired values as entries are kept have an owned entry already. -/
theorem kept_add_uncovered_le (hd : (ownedAddrs U s).Nodup) :
    (kept U desired s).length + (uncovered U desired s).length ≤ (desiredKeys desired).length := by
  have hnodup : ((kept U desired s).map (fun e => normalizeAddr U e.address)).Nodup := by
    have hsub : (kept U desired s).Sublist (s.filter (fun e => isOwned e.comment)) := by
      have heq : kept U desired s = (s.filter (fun e => isOwned e.comment)).filter
          (fun e => normalizeAddr U e.address ∈ desiredNorm U desired) := by
        rw [List.filter_filter, kept]
        apply List.filter_congr
        intro e _
        simp [Bool.and_comm]
      rw [heq]
      exact List.filter_sublist
    exact (hsub.map _).nodup hd
  have hsubset : (kept U desired s).map (fun e => normalizeAddr U e.address) ⊆
      ((desiredKeys desired).filter (fun k => normalizeAddr U (some k) ∈ ownedAddrs U s)).map
        (fun k => normalizeAddr U (some k)) := by
    intro a ha
    obtain ⟨e,he,rfl⟩ := List.mem_map.mp ha
    obtain ⟨hes,hcond⟩ := List.mem_filter.mp he
    obtain ⟨howned,hdes⟩ := of_decide_eq_true hcond
    obtain ⟨k,hk,hka⟩ := mem_desiredNorm.mp hdes
    refine List.mem_map.mpr ⟨k,List.mem_filter.mpr ⟨hk,?_⟩,hka⟩
    exact decide_eq_true (mem_ownedAddrs.mpr ⟨e,hes,howned,hka.symm⟩)
  have hle := (List.subperm_of_subset hnodup hsubset).length_le
  have hsplit := List.length_eq_length_filter_add (fun k => decide (normalizeAddr U (some k) ∈ ownedAddrs U s))
    (l := desiredKeys desired)
  have huncov : uncovered U desired s =
      (desiredKeys desired).filter (fun k => !decide (normalizeAddr U (some k) ∈ ownedAddrs U s)) := by
    unfold uncovered
    simp
  simp only [List.length_map] at hle
  rw [huncov]
  omega

theorem Cycle.length_stale {refuses : String → Bool} (h : Cycle U desired cap refuses s t) (hs : HandlesDistinct s)
    (hd : (ownedAddrs U s).Nodup) : (stale U desired t).length = (stale U desired s).length - cap := by
  have hnodup : ((stale U desired s).map Entry.eid).Nodup := (List.filter_sublist.map _).nodup hs.1
  have hdrop : (stale U desired s).filter (fun e => e.eid ∉ ((stale U desired s).map Entry.eid).take cap) =
      (stale U desired s).drop cap := CappedQueue.filter_not_mem_take hnodup
  rw [h.stale_perm.length_eq, toRemove_eq hs.2 hd, hdrop, List.length_drop]

theorem Cycle.length_kept (h : Cycle U desired cap (fun _ => false) s t) (hs : HandlesDistinct s) :
    (kept U desired t).length = (kept U desired s).length + min cap (uncovered U desired s).length := by
  obtain ⟨added,hadded,_,hperm⟩ := h
  have hall : kept U desired added = added := by
    refine List.filter_eq_self.mpr (fun e he => ?_)
    obtain ⟨howned,k,hk,haddr⟩ := (added_spec hadded).1 e he
    simpa [haddr, howned] using admitted_desired hk
  have hlive : kept U desired (s.filter (fun e => e.eid ∉ (reconcile U desired s).toRemove.take cap)) =
      kept U desired s := by
    rw [kept, kept, List.filter_comm]
    refine List.filter_eq_self.mpr (fun e he => ?_)
    obtain ⟨hes,hcond⟩ := List.mem_filter.mp he
    have hnot : ¬ IsStale U desired e := fun hstale => hstale.2 (of_decide_eq_true hcond).2
    simpa using eid_not_mem_toRemove cap hs hes hnot
  have hcount : added.length = min cap (uncovered U desired s).length := by
    have hlen := congrArg List.length hadded
    have hkeys := congrArg List.length (map_fst_toAdd (U := U) desired s)
    simp only [acceptedAdds, List.length_map, Bool.not_false, List.filter_true, List.length_take] at hlen hkeys
    rw [hlen, hkeys]
    rfl
  have hp := (hperm.filter (fun e => decide (isOwned e.comment ∧ normalizeAddr U e.address ∈ desiredNorm U desired))).length_eq
  rw [List.filter_append] at hp
  change (kept U desired t).length = (kept U desired _ ++ kept U desired added).length at hp
  rw [hp, hlive, hall, List.length_append, hcount]

/-- A list of at most `M` values on a target that performs every operation: `M` owned
entries are not exceeded if they were not before. -/
theorem Cycle.length_ownedAddrs_le {M : ℕ} (h : Cycle U desired cap (fun _ => false) s t) (hs : HandlesDistinct s)
    (hd : (ownedAddrs U s).Nodup) (hM : (desiredKeys desired).length ≤ M) (hle : (ownedAddrs U s).length ≤ M) :
    (ownedAddrs U t).length ≤ M := by
  have hroom := @kept_add_uncovered_le U desired s hd
  have hstale := h.length_stale hs hd
  have hkept := h.length_kept hs
  rw [length_ownedAddrs desired] at hle ⊢
  omega

/-- Two desired values never stand for one address. -/
def OneFormEach (U : CaseMap) (desired : List Decision) : Prop :=
  ∀ j ∈ desiredKeys desired, ∀ k ∈ desiredKeys desired, normalizeAddr U (some j) = normalizeAddr U (some k) → j = k

theorem OneFormEach.mono {desired' : List Decision} (h : OneFormEach U desired') (hsub : desired ⊆ desired') :
    OneFormEach U desired := by
  have hkeys : ∀ k ∈ desiredKeys desired, k ∈ desiredKeys desired' := by
    intro k hk
    obtain ⟨d,hd,rfl⟩ := List.mem_map.mp (mem_firstKeys.mp hk)
    obtain ⟨hmem,hne⟩ := List.mem_filter.mp hd
    exact mem_firstKeys.mpr (List.mem_map_of_mem (List.mem_filter.mpr ⟨hsub hmem,hne⟩))
  exact fun j hj k hk => h j (hkeys j hj) k (hkeys k hk)

theorem Cycle.nodup_ownedAddrs {refuses : String → Bool} (h : Cycle U desired cap refuses s t)
    (hd : (ownedAddrs U s).Nodup) (hone : OneFormEach U desired) : (ownedAddrs U t).Nodup := by
  obtain ⟨added,hadded,_,hperm⟩ := h
  have hnew : ownedAddrs U added =
      (CappedQueue.admitted refuses cap (uncovered U desired s)).map (fun k => normalizeAddr U (some k)) := by
    have hall : added.filter (fun e => isOwned e.comment) = added :=
      List.filter_eq_self.mpr (fun e he => ((added_spec hadded).1 e he).1)
    have haddr : added.map Entry.address = ((acceptedAdds U desired cap refuses s).map Prod.fst).map some := by
      have := congrArg (List.map Prod.fst) hadded
      simpa [List.map_map, Function.comp_def] using this
    calc ownedAddrs U added
        = (added.map Entry.address).map (normalizeAddr U) := by rw [ownedAddrs, hall, List.map_map]; rfl
      _ = (CappedQueue.admitted refuses cap (uncovered U desired s)).map (fun k => normalizeAddr U (some k)) := by
          rw [haddr, map_fst_acceptedAdds, List.map_map]
          rfl
  have hsub : (ownedAddrs U (s.filter (fun e => e.eid ∉ (reconcile U desired s).toRemove.take cap))).Sublist (ownedAddrs U s) :=
    (List.filter_sublist.filter _).map _
  have hp : (ownedAddrs U t).Perm
      (ownedAddrs U (s.filter (fun e => e.eid ∉ (reconcile U desired s).toRemove.take cap)) ++ ownedAddrs U added) := by
    have := (hperm.filter (fun e => isOwned e.comment)).map (fun e => normalizeAddr U e.address)
    rwa [List.filter_append, List.map_append] at this
  have hfrom : ∀ k ∈ CappedQueue.admitted refuses cap (uncovered U desired s),
      k ∈ desiredKeys desired ∧ normalizeAddr U (some k) ∉ ownedAddrs U s :=
    fun k hk => mem_uncovered.mp (List.mem_of_mem_take (CappedQueue.mem_admitted.mp hk).1)
  have huncov : (CappedQueue.admitted refuses cap (uncovered U desired s)).Nodup :=
    (((firstKeys_nodup _).filter _).sublist (List.take_sublist _ _)).filter _
  rw [hp.nodup_iff, hnew]
  refine List.nodup_append.mpr ⟨hsub.nodup hd,?_,?_⟩
  · refine List.Nodup.map_on (fun j hj k hk he => ?_) huncov
    exact hone j (hfrom j hj).1 k (hfrom k hk).1 he
  · intro a ha b hb heq
    obtain ⟨k,hk,rfl⟩ := List.mem_map.mp hb
    exact (hfrom k hk).2 (heq ▸ hsub.subset ha)

end
end Protek.Diff
