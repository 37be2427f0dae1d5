import Protek.Diff.Occupancy
import Protek.Targets.Cycle

/-! # The cap on a target's entries

Adds and removals are capped apart from each other, but the filtered list never
holds more than `max_entries` values: what a cycle adds beyond what it removes is
room that the kept entries leave.
-/
namespace Protek.Targets
open Foundation Foundation.OrderedDict Foundation.PyText Protek.Policy Protek.Diff

/-- What a target holds once it has performed the operations of a worker's call. -/
def Performs (s : List Entry) (call : Option ApplyCall) (t : List Entry) : Prop :=
  match call with
  | none => t.Perm s
  | some c => ∃ added : List Entry,
      added.map (fun e => (e.address,e.comment)) = c.toAdd.map (fun p => (some p.1,some p.2)) ∧
      HandlesDistinct (s ++ added) ∧ t.Perm (s.filter (fun e => e.eid ∉ c.toRemoveIds) ++ added)

/-- What the worker of one target is given in a cycle. -/
structure WorkerArgs where
  table : TargetTable
  desired : List DesiredRow
  dryRun : Bool
  batchCap : ℕ
  target : Target

/-- One cycle of `_run_one_bouncer` on a target that is configured, reads its list and
performs what it is told. -/
def PerformedCycle (U : CaseMap) (compile : Compile) (reputation : BulkComputeForMin) (f : TargetFilters)
    (s : List Entry) (w : WorkerArgs) (t : List Entry) : Prop :=
  w.target.filters = f ∧ w.target.isConfigured = .ok true ∧ w.target.snapshot = .ok s ∧
  Performs s (runOneBouncer U compile reputation w.table w.desired w.dryRun w.batchCap w.target).call t

section
variable {U : CaseMap} {compile : Compile} {reputation : BulkComputeForMin} {f : TargetFilters} {M : ℕ}
variable {s t init : List Entry} {w : WorkerArgs}

theorem mem_of_mem_newest {out : List DesiredRow} {n : ℤ} {d : DesiredRow} (h : d ∈ newest out n) : d ∈ out := by
  unfold newest at h
  split at h
  · refine (List.perm_insertionSort (fun a b : DesiredRow => b.lapiId ≤ a.lapiId) out).mem_iff.mp ?_
    unfold slice at h
    split at h
    · exact List.mem_of_mem_take h
    · exact List.mem_of_mem_take h
  · exact h

theorem length_newest_le (out : List DesiredRow) (hM : 1 ≤ M) : (newest out (M : ℤ)).length ≤ M := by
  unfold newest slice
  split
  · rw [if_neg (by omega), List.length_take]
    omega
  · omega

/-- The filters only drop decisions. -/
theorem mem_of_mem_filterDesired {desired : List DesiredRow} {d : DesiredRow}
    (h : d ∈ filterDesiredForBouncer compile reputation f desired) : d ∈ desired := by
  unfold filterDesiredForBouncer at h
  split at h
  · exact h
  · have hkept := mem_of_mem_newest h
    have hscen : d ∈ keepScenarios compile f (keepSources f (desired.filter (fun d => f.originOk d.origin))) := by
      unfold keepReputable at hkept
      split at hkept
      · exact hkept
      · split at hkept
        · exact hkept
        · exact (List.mem_filter.mp hkept).1
    rw [keepScenarios_eq, keepSources_eq] at hscen
    exact (List.mem_filter.mp (List.mem_filter.mp (List.mem_filter.mp hscen).1).1).1

theorem length_filterDesired_le (hf : f.maxEntries = some (M : ℤ)) (hM : 1 ≤ M) (desired : List DesiredRow) :
    (filterDesiredForBouncer compile reputation f desired).length ≤ M := by
  have hon : f.isOff = false := by
    have hne : ¬ isZero f.maxEntries = true := by
      rw [hf]
      simp only [isZero, Option.getD_some, decide_eq_true_eq]
      omega
    simp [TargetFilters.isOff, Bool.eq_false_iff.mpr hne]
  unfold filterDesiredForBouncer
  simp only [hon, Bool.false_eq_true, if_false, hf, Option.getD_some]
  exact length_newest_le _ hM

/-- A worker's call on a performing target is a cycle of the diff over the filtered list. -/
theorem PerformedCycle.cases (h : PerformedCycle U compile reputation f s w t) :
    t.Perm s ∨ HandlesDistinct s ∧
      Cycle U ((filterDesiredForBouncer compile reputation f w.desired).map decisionOf) w.batchCap (fun _ => false) s t := by
  obtain ⟨rfl,hconf,hsnap,hperf⟩ := h
  have hread : w.target.readSnapshot.1 = s := by
    unfold Target.readSnapshot
    rw [hconf, hsnap]
  unfold runOneBouncer at hperf
  dsimp only at hperf
  rw [hread] at hperf
  split at hperf
  · exact Or.inl hperf
  · split at hperf
    · exact Or.inl hperf
    · split at hperf
      · obtain ⟨added,hadded,hdist,hperm⟩ : Performs s (some ⟨w.target.name,_,_⟩) t := by
          unfold Target.push at hperf
          dsimp only at hperf
          split at hperf
          · exact hperf
          · exact hperf
        refine Or.inr ⟨⟨(List.nodup_append.mp (List.map_append ▸ hdist.1)).1,?_⟩,added,?_,hdist,hperm⟩
        · exact fun e he => hdist.2 e (List.mem_append_left _ he)
        · simpa [acceptedAdds] using hadded
      · exact Or.inl hperf

theorem PerformedCycle.length_le (h : PerformedCycle U compile reputation f s w t) (hf : f.maxEntries = some (M : ℤ))
    (hM : 1 ≤ M) (hd : (ownedAddrs U s).Nodup) (hle : (ownedAddrs U s).length ≤ M) : (ownedAddrs U t).length ≤ M := by
  rcases h.cases with hperm | ⟨hs,hcycle⟩
  · rw [(ownedAddrs_perm_list hperm).length_eq]
    exact hle
  · refine hcycle.length_ownedAddrs_le hs hd ?_ hle
    refine (length_desiredKeys_le _).trans ?_
    rw [List.length_map]
    exact length_filterDesired_le hf hM w.desired

theorem PerformedCycle.nodup (h : PerformedCycle U compile reputation f s w t) (hd : (ownedAddrs U s).Nodup)
    (hone : OneFormEach U (w.desired.map decisionOf)) : (ownedAddrs U t).Nodup := by
  rcases h.cases with hperm | ⟨_,hcycle⟩
  · exact (ownedAddrs_perm_list hperm).nodup_iff.mpr hd
  · refine hcycle.nodup_ownedAddrs hd (hone.mono (fun d hd => ?_))
    obtain ⟨r,hr,rfl⟩ := List.mem_map.mp hd
    exact List.mem_map_of_mem (mem_of_mem_filterDesired hr)

/-- In every run of cycles over any desired lists a target that performs its operations never
exceeds `max_entries` in a cycle it begins with at most that many owned entries; while no two
desired values stand for one address it never exceeds them at all. -/
theorem max_entries_never_exceeded (U : CaseMap) (compile : Compile) (reputation : BulkComputeForMin) {f : TargetFilters}
    (hf : f.maxEntries = some (M : ℤ)) (hM : 1 ≤ M) {ts : List (Transition (List Entry) WorkerArgs)}
    (h : Trace (PerformedCycle U compile reputation f) init ts s) :
    (∀ t ∈ ts, (ownedAddrs U t.before).Nodup → (ownedAddrs U t.before).length ≤ M → (ownedAddrs U t.after).length ≤ M) ∧
    ((∀ t ∈ ts, OneFormEach U (t.label.desired.map decisionOf)) → (ownedAddrs U init).Nodup →
      (ownedAddrs U init).length ≤ M → (ownedAddrs U s).length ≤ M ∧ ∀ t ∈ ts, (ownedAddrs U t.after).length ≤ M) := by
  constructor
  · intro t ht hd hle
    exact (h.mem_step t ht).length_le hf hM hd hle
  · intro hone hd hle
    obtain ⟨hs,hall⟩ := h.invariant (I := fun s => (ownedAddrs U s).Nodup ∧ (ownedAddrs U s).length ≤ M)
      (C := fun t => OneFormEach U (t.label.desired.map decisionOf)) ⟨hd,hle⟩
      (fun t hst hc hI => ⟨hst.nodup hI.1 hc,hst.length_le hf hM hI.1 hI.2⟩) hone
    exact ⟨hs.2,fun t ht => (hall t ht).2.2⟩

end

/-! ## A window of one entry that slides -/

def oldest : Entry := { id := some "*1", address := some "8.8.8.8", comment := some "protek:local:ssh-bf:4" }

def newer : Entry := { id := some "*2", address := some "1.1.1.1", comment := some "protek:local::5" }

def slidingArgs : WorkerArgs where
  table := .empty
  desired := [⟨"1.1.1.1","Ip","","","local",5⟩,⟨"8.8.8.8","Ip","ssh-bf","","local",4⟩]
  dryRun := false
  batchCap := 1
  target := {
    name := "edge"
    kind := "mikrotik"
    filters := { maxEntries := some 1 }
    isConfigured := .ok true
    snapshot := .ok [oldest]
    isConfiguredAgain := .ok true
    apply := fun _ _ => .error "not asked" }

theorem slidingCycle : PerformedCycle .ascii (fun _ => none) (fun _ => none) { maxEntries := some 1 } [oldest] slidingArgs [newer] := by
  refine ⟨rfl,rfl,rfl,?_⟩
  have hcall : (runOneBouncer .ascii (fun _ => none) (fun _ => none) slidingArgs.table slidingArgs.desired slidingArgs.dryRun
      slidingArgs.batchCap slidingArgs.target).call = some ⟨"edge",[("1.1.1.1","protek:local::5")],["*1"]⟩ := by decide
  rw [hcall]
  refine ⟨[newer],by decide,?_,by decide⟩
  unfold HandlesDistinct
  decide

theorem max_entries_never_exceeded_example :
    (∀ t ∈ [(⟨[oldest],slidingArgs,[newer]⟩ : Transition (List Entry) WorkerArgs)], (ownedAddrs .ascii t.before).Nodup →
      (ownedAddrs .ascii t.before).length ≤ 1 → (ownedAddrs .ascii t.after).length ≤ 1) ∧
    ((∀ t ∈ [(⟨[oldest],slidingArgs,[newer]⟩ : Transition (List Entry) WorkerArgs)],
      OneFormEach .ascii (t.label.desired.map decisionOf)) → (ownedAddrs .ascii [oldest]).Nodup →
      (ownedAddrs .ascii [oldest]).length ≤ 1 → (ownedAddrs .ascii [newer]).length ≤ 1 ∧
      ∀ t ∈ [(⟨[oldest],slidingArgs,[newer]⟩ : Transition (List Entry) WorkerArgs)], (ownedAddrs .ascii t.after).length ≤ 1) :=
  max_entries_never_exceeded .ascii (fun _ => none) (fun _ => none) rfl le_rfl (Trace.single slidingCycle)

end Protek.Targets
