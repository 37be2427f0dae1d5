import Protek.Targets.Cycle

/-! # What a cycle reports

A cycle that returns counts each target once: the totals of its `sync_events` row are the
sums over the workers, with one error for a worker that raised. Three things outside the
targets keep it from returning.
-/
namespace Protek.Targets
open Foundation Foundation.PyText Foundation.Clock Protek.Store Protek.Policy Protek.Diff

def Future.raised (f : Future) : Bool :=
  match f.result with
  | .ok _ => false
  | .error _ => true

/-- The sum of one count over the workers that returned. -/
def sumOver (count : TargetResult → ℕ) (futures : List Future) : ℕ :=
  (futures.map (fun f => match f.result with
    | .ok r => count r
    | .error _ => 0)).sum

def raisedCount (futures : List Future) : ℕ := futures.countP Future.raised

section
variable (U : CaseMap) (T : CharTable) (compile : Compile) (reputation : BulkComputeForMin)

/-- The cycle returns and writes one row with exact totals; exchanging one target changes nothing
at the others; and a dry run calls no `apply`. -/
structure Accounted (st : CycleStore) (args : CycleArgs) (targets : List Target) : Prop where
  returns : ∃ r, (runOnce U T compile reputation st args targets).result = .ok r
  oneEvent : ∃ e, (runOnce U T compile reputation st args targets).store.syncEvents = st.syncEvents ++ [e] ∧
    e.added = sumOver TargetResult.toAddN (runOnce U T compile reputation st args targets).futures ∧
    e.removed = sumOver TargetResult.toRemoveN (runOnce U T compile reputation st args targets).futures ∧
    e.unchanged = sumOver TargetResult.unchangedN (runOnce U T compile reputation st args targets).futures ∧
    e.errors = sumOver TargetResult.errors (runOnce U T compile reputation st args targets).futures +
      raisedCount (runOnce U T compile reputation st args targets).futures
  everyTarget : (runOnce U T compile reputation st args targets).futures.length = targets.length
  independent : ∀ (i : ℕ) (b : Target) (j : ℕ), j ≠ i →
    (runOnce U T compile reputation st args (targets.set i b)).futures[j]? =
      (runOnce U T compile reputation st args targets).futures[j]?
  dry : args.dryRun = true → (runOnce U T compile reputation st args targets).calls = []

end

section
variable {U : CaseMap} {T : CharTable} {compile : Compile} {reputation : BulkComputeForMin}
  {st : CycleStore} {args : CycleArgs} {targets : List Target}

/-- A call to `apply` means that neither the cycle nor the target is dry. -/
theorem live_of_call {table : TargetTable} {desired : List DesiredRow} {dryRun : Bool} {batchCap : ℕ} {b : Target}
    (h : (runOneBouncer U compile reputation table desired dryRun batchCap b).call ≠ none) :
    dryRun = false ∧ bouncerIsDry table b = false := by
  unfold runOneBouncer at h
  dsimp only at h
  cases hdry : dryRun || bouncerIsDry table b with
  | true => simp [hdry] at h
  | false => simpa using hdry

/-- One turn of the loop adds the future's counts. -/
theorem take_counts (now : Instant) (acc : Totals) (p : Target × Future) :
    (acc.take now p).totalAdd = acc.totalAdd + sumOver TargetResult.toAddN [p.2] ∧
    (acc.take now p).totalRemove = acc.totalRemove + sumOver TargetResult.toRemoveN [p.2] ∧
    (acc.take now p).unchanged = acc.unchanged + sumOver TargetResult.unchangedN [p.2] ∧
    (acc.take now p).errorCount = acc.errorCount + (sumOver TargetResult.errors [p.2] + raisedCount [p.2]) := by
  obtain ⟨b,result,call⟩ := p
  cases result with
  | ok r => simp [Totals.take, sumOver, raisedCount, Future.raised]
  | error e => simp [Totals.take, sumOver, raisedCount, List.countP_cons, Future.raised]

theorem sumOver_cons (count : TargetResult → ℕ) (f : Future) (rest : List Future) :
    sumOver count (f :: rest) = sumOver count [f] + sumOver count rest := by simp [sumOver]

theorem raisedCount_cons (f : Future) (rest : List Future) :
    raisedCount (f :: rest) = raisedCount [f] + raisedCount rest := by
  unfold raisedCount
  rw [List.countP_cons, List.countP_cons, List.countP_nil]
  omega

theorem foldl_take_counts (now : Instant) (targets : List Target) (futures : List Future)
    (hlen : futures.length = targets.length) (acc : Totals) :
    ((targets.zip futures).foldl (Totals.take now) acc).totalAdd = acc.totalAdd + sumOver TargetResult.toAddN futures ∧
    ((targets.zip futures).foldl (Totals.take now) acc).totalRemove =
      acc.totalRemove + sumOver TargetResult.toRemoveN futures ∧
    ((targets.zip futures).foldl (Totals.take now) acc).unchanged =
      acc.unchanged + sumOver TargetResult.unchangedN futures ∧
    ((targets.zip futures).foldl (Totals.take now) acc).errorCount =
      acc.errorCount + (sumOver TargetResult.errors futures + raisedCount futures) := by
  induction targets generalizing futures acc with
  | nil =>
    rw [List.length_eq_zero_iff.mp hlen]
    simp [sumOver, raisedCount]
  | cons b rest ih =>
    cases futures with
    | nil => simp at hlen
    | cons f fs =>
      obtain ⟨ha,hr,hu,he⟩ := ih fs (by simpa using hlen) (acc.take now (b,f))
      obtain ⟨ha',hr',hu',he'⟩ := take_counts now acc (b,f)
      rw [List.zip_cons_cons, List.foldl_cons, ha, hr, hu, he, ha', hr', hu', he']
      simp only [sumOver_cons _ f fs, raisedCount_cons f fs]
      omega

end

section
variable (U : CaseMap) {T : CharTable} (compile : Compile) (reputation : BulkComputeForMin)
  {st : CycleStore} (args : CycleArgs) {targets : List Target}

/-- The normal path, with its futures and its row. -/
theorem runOnce_of_ok (hne : targets ≠ []) (htime : timeoutOk T st.db.settings = true)
    (hthr : thresholdOk T st.db.settings = true) :
    ∃ r, runOnce U T compile reputation st args targets =
      ⟨({ st with db := (desiredFromDb U T st.db args.now).2 } : CycleStore).record args targets
          ((targets.zip (runWorkers U T compile reputation st args targets)).foldl (Totals.take args.now) {}),
        runWorkers U T compile reputation st args targets,.ok r⟩ := by
  unfold runOnce
  simp only [hthr, Bool.true_eq_false, if_false, hne, settings_desiredFromDb, htime]
  exact ⟨_,rfl⟩

theorem futures_runOnce (targets : List Target) (htime : timeoutOk T st.db.settings = true) (hthr : thresholdOk T st.db.settings = true) :
    (runOnce U T compile reputation st args targets).futures = runWorkers U T compile reputation st args targets := by
  by_cases hne : targets = []
  · subst hne
    unfold runOnce
    simp [hthr, runWorkers]
  · obtain ⟨r,hr⟩ := runOnce_of_ok U compile reputation args hne htime hthr
    rw [hr]

end

theorem calls_runOnce_of_dry (U : CaseMap) (T : CharTable) (compile : Compile) (reputation : BulkComputeForMin)
    (st : CycleStore) {args : CycleArgs} {targets : List Target}
    (hdry : args.dryRun = true ∨ ∀ b ∈ targets, bouncerIsDry st.targets b = true) :
    (runOnce U T compile reputation st args targets).calls = [] := by
  have hworkers : (runWorkers U T compile reputation st args targets).filterMap Future.call = [] := by
    apply List.filterMap_eq_nil_iff.mpr
    intro f hf
    obtain ⟨b,hb,rfl⟩ := List.mem_map.mp hf
    by_contra hcall
    obtain ⟨hcycle,htarget⟩ := live_of_call hcall
    rcases hdry with h | h
    · rw [h] at hcycle
      cases hcycle
    · rw [h b hb] at htarget
      cases htarget
  unfold runOnce CycleOutcome.calls
  split
  · rfl
  · dsimp only
    split
    · rfl
    · split
      · rfl
      · exact hworkers

/-- The accounting holds exactly when there is a target, the timeout setting is a number, and the
confidence threshold fits a database integer. -/
theorem accounted_iff (U : CaseMap) (T : CharTable) (compile : Compile) (reputation : BulkComputeForMin)
    (st : CycleStore) (args : CycleArgs) (targets : List Target) :
    Accounted U T compile reputation st args targets ↔
      targets ≠ [] ∧ timeoutOk T st.db.settings = true ∧ thresholdOk T st.db.settings = true := by
  constructor
  · rintro ⟨⟨r,hr⟩,_,_,_,_⟩
    unfold runOnce at hr
    by_cases hthr : thresholdOk T st.db.settings = false
    · simp [hthr] at hr
    · by_cases hnil : targets = []
      · simp [hthr, hnil] at hr
      · by_cases htime : timeoutOk T st.db.settings = false
        · simp [hthr, hnil, settings_desiredFromDb, htime] at hr
        · exact ⟨hnil,by simpa using htime,by simpa using hthr⟩
  · rintro ⟨hne,htime,hthr⟩
    obtain ⟨r,hr⟩ := runOnce_of_ok U compile reputation args hne htime hthr
    have hlen : (runWorkers U T compile reputation st args targets).length = targets.length := by simp [runWorkers]
    constructor
    · exact ⟨r,by rw [hr]⟩
    · obtain ⟨ha,hrm,hu,he⟩ := foldl_take_counts args.now targets _ hlen {}
      rw [hr]
      refine ⟨_,rfl,?_,?_,?_,?_⟩
      · exact ha.trans (Nat.zero_add _)
      · exact hrm.trans (Nat.zero_add _)
      · exact hu.trans (Nat.zero_add _)
      · exact he.trans (Nat.zero_add _)
    · rw [hr]
      exact hlen
    · intro i b j hj
      rw [futures_runOnce U compile reputation args _ htime hthr, futures_runOnce U compile reputation args _ htime hthr]
      unfold runWorkers
      rw [List.getElem?_map, List.getElem?_map, List.getElem?_set_ne hj.symm]
    · intro hdry
      exact calls_runOnce_of_dry U T compile reputation st (Or.inl hdry)

def freshStore : CycleStore := ⟨Db.empty,.empty,[],0,[]⟩

/-- On a fresh install the cycle writes its row and then raises. -/
theorem fresh_install_raises :
    ¬ Accounted .ascii .ascii (fun _ => none) (fun _ => none) freshStore { source := "auto", dryRun := true, batchCap := 200, now := 0 } [] := by
  rintro ⟨⟨r,hr⟩,_,_,_,_⟩
  have herr : (runOnce .ascii .ascii (fun _ => none) (fun _ => none) freshStore
      { source := "auto", dryRun := true, batchCap := 200, now := 0 } []).result = .error .targetStateUnbound := rfl
  rw [herr] at hr
  cases hr

end Protek.Targets
