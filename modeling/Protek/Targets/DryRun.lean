import Protek.Targets.Accounting
import Protek.Targets.Triggers

/-! # The global dry-run switch

While `settings.dry_run` is 1, the poller and the v1 route write nothing. The older sync
route asks the environment of its process instead, and the self-test asks each target of
the database alone.
-/
namespace Protek.Targets
open Foundation Foundation.PyText Foundation.Clock Protek.Store Protek.Policy Protek.Diff

def SwitchOn (w : World) : Prop := w.store.db.settings "settings.dry_run" = some "1"

/-- A target of the database whose own flag lets it be written. -/
def DbLive (table : TargetTable) (b : Target) : Prop :=
  b.kind ≠ "mikrotik_env" ∧ ∃ row, table.find b.name = some row ∧ row.dryRun = 0

/-- Where a trigger does not ask the switch, nothing is there to be written. -/
def Guarded (E : Env) (t : Transition World Event) : Prop :=
  match t.label with
  | .apiSyncRun _ targets => E.bootDryRun = true ∨ ∀ b ∈ targets, bouncerIsDry t.before.store.targets b = true
  | .syntheticRun _ probes => ∀ p ∈ probes, ¬ DbLive t.before.store.targets p.target
  | .tick now _ pulled _ probes =>
    (∃ p, t.before.poller = some p ∧ (p.cycles + 1) % 2160 = 0) → World.testDue E pulled.settings now = true →
      ∀ p ∈ probes, ¬ DbLive t.before.store.targets p.target
  | _ => True

/-- The switch is not saved as 0. -/
def StaysOn (e : Event) : Prop := ∀ batchCap owns, e ≠ .saveSettings false batchCap owns

section
variable {E : Env} {w : World}

/-- A cycle raises, or it records; either way the settings and the target table stay. -/
theorem store_runOnce (U : CaseMap) (T : CharTable) (compile : Compile) (reputation : BulkComputeForMin)
    (st : CycleStore) (args : CycleArgs) (targets : List Target) :
    (runOnce U T compile reputation st args targets).store.db.settings = st.db.settings ∧
    (runOnce U T compile reputation st args targets).store.targets = st.targets := by
  unfold runOnce
  split
  · exact ⟨rfl,rfl⟩
  · dsimp only
    split
    · exact ⟨settings_desiredFromDb,rfl⟩
    · split
      · exact ⟨settings_desiredFromDb,rfl⟩
      · exact ⟨settings_desiredFromDb,rfl⟩

theorem store_cycle (w : World) (args : CycleArgs) (targets : List Target) :
    (w.cycle E args targets).store.db.settings = w.store.db.settings ∧
    (w.cycle E args targets).store.targets = w.store.targets := by
  have h := store_runOnce E.caseMap E.charTable E.compile E.reputation w.store args targets
  unfold World.cycle
  dsimp only
  exact h

theorem applied_cycle {args : CycleArgs} {targets : List Target}
    (hdry : args.dryRun = true ∨ ∀ b ∈ targets, bouncerIsDry w.store.targets b = true) :
    (w.cycle E args targets).applied = w.applied := by
  unfold World.cycle
  dsimp only
  rw [calls_runOnce_of_dry _ _ _ _ _ hdry, List.append_nil]

theorem applied_selfTest {now : Instant} {probes : List Probe} (hon : SwitchOn w)
    (hdry : ∀ p ∈ probes, ¬ DbLive w.store.targets p.target) : (w.selfTest E now probes).applied = w.applied := by
  have hlive : probes.filter (fun p => isLive E.caseMap w.store.db.settings E.dryRun w.store.targets p.target) = [] := by
    apply List.filter_eq_nil_iff.mpr
    intro p hp hl
    apply hdry p hp
    unfold isLive at hl
    by_cases henv : p.target.kind = "mikrotik_env"
    · -- the router of `.env` follows the switch
      rw [if_pos henv, envDryLive, hon] at hl
      simp at hl
    · rw [if_neg henv] at hl
      cases hrow : w.store.targets.find p.target.name with
      | none => simp [hrow] at hl
      | some row => exact ⟨henv,row,hrow,by simpa [hrow] using hl⟩
  unfold World.selfTest runTest
  simp [hlive]

theorem settings_runTest {U : CaseMap} {envDryRun : Option String} {db : Db} {table : TargetTable} {probes : List Probe}
    {now : Instant} {k : String} (h1 : k ≠ "synthetic.last_at") (h2 : k ≠ "synthetic.last_status") :
    (runTest U envDryRun db table probes now).db.settings k = db.settings k := by
  have hfinish : ∀ (d : Db) (status : String),
      ((d.setSetting "synthetic.last_at" (isoformat now)).setSetting "synthetic.last_status" status).settings k = d.settings k := by
    intro d status
    simp [Db.setSetting, Function.update_of_ne h1, Function.update_of_ne h2]
  unfold runTest
  dsimp only
  split
  · exact hfinish db _
  · exact hfinish _ _

theorem switchOn_cycle {args : CycleArgs} {targets : List Target} (hon : SwitchOn w) : SwitchOn (w.cycle E args targets) := by
  unfold SwitchOn
  rw [(store_cycle w args targets).1]
  exact hon

theorem switchOn_selfTest {now : Instant} {probes : List Probe} (hon : SwitchOn w) : SwitchOn (w.selfTest E now probes) :=
  (settings_runTest (by decide) (by decide)).trans hon

theorem dryRun_readKnobs {T : CharTable} {p : Poller} {settings : String → Option String}
    (hon : settings "settings.dry_run" = some "1") : (p.readKnobs T settings).dryRun = true := by
  unfold Poller.readKnobs
  simp [hon]

theorem cycles_readKnobs (T : CharTable) (p : Poller) (settings : String → Option String) :
    (p.readKnobs T settings).cycles = p.cycles := rfl

/-- The three ways of a tick. -/
theorem tick_cases (E : Env) (w : World) (p : Poller) (now : Instant) (hasSources : Bool) (pulled : Db)
    (targets : List Target) (probes : List Probe) :
    (∃ q, w.tick E p now hasSources pulled targets probes = { w with poller := some q }) ∨
    ∃ q args, (w.store.db.settings "settings.dry_run" = some "1" → args.dryRun = true) ∧
      (w.tick E p now hasSources pulled targets probes = (w.afterPulls q pulled).cycle E args targets ∨
        ((p.cycles + 1) % 2160 = 0 ∧ World.testDue E pulled.settings now = true ∧
          w.tick E p now hasSources pulled targets probes =
            ((w.afterPulls q pulled).cycle E args targets).selfTest E now probes)) := by
  generalize hknobs : p.readKnobs E.charTable w.store.db.settings = k
  have hcycles : k.cycles = p.cycles := hknobs ▸ cycles_readKnobs _ _ _
  have hdry : w.store.db.settings "settings.dry_run" = some "1" → k.dryRun = true :=
    fun hon => hknobs ▸ dryRun_readKnobs hon
  generalize hq : ({ k with cycles := k.cycles + 1 } : Poller) = q
  generalize hv : (w.afterPulls q pulled).cycle E (World.tickArgs k now) targets = v
  have hsettings : v.store.db.settings = pulled.settings := by
    rw [← hv, (store_cycle _ _ _).1]
    rfl
  have htick : w.tick E p now hasSources pulled targets probes =
      if hasSources = false then { w with poller := some k }
      else if (p.cycles + 1) % 2160 = 0 ∧ World.testDue E pulled.settings now = true then v.selfTest E now probes else v := by
    rw [← hsettings, ← hv, ← hq, ← hcycles, ← hknobs]
    rfl
  rw [htick]
  by_cases hs : hasSources = false
  · rw [if_pos hs]
    exact Or.inl ⟨k,rfl⟩
  · rw [if_neg hs]
    right
    by_cases hdue : (p.cycles + 1) % 2160 = 0 ∧ World.testDue E pulled.settings now = true
    · rw [if_pos hdue]
      exact ⟨q,World.tickArgs k now,hdry,Or.inr ⟨hdue.1,hdue.2,by rw [hv]⟩⟩
    · rw [if_neg hdue]
      exact ⟨q,World.tickArgs k now,hdry,Or.inl hv.symm⟩

/-- Between two saves the switch stays as it is. -/
theorem switchOn_step {e : Event} {w' : World} (hs : Step E w e w') (hstay : StaysOn e) (hon : SwitchOn w) : SwitchOn w' := by
  cases hs with
  | start =>
    rcases World.start_cases E w with hw | ⟨_,p,hw⟩
    · rwa [hw]
    · rw [hw]
      exact hon
  | stop => exact hon
  | promote => simpa [SwitchOn, World.withDb] using hon
  | demote => simpa [SwitchOn, World.withDb] using hon
  | @saveSettings dry batchCap owns =>
    cases dry with
    | false => exact absurd rfl (hstay batchCap owns)
    | true => simp [SwitchOn, World.saveSettings, World.withDb]
  | @tick p now hasSources pulled targets probes hp hsame =>
    have hpulled : ∀ q, SwitchOn (w.afterPulls q pulled) := fun q => hsame.1.trans hon
    rcases tick_cases E w p now hasSources pulled targets probes with ⟨q,hq⟩ | ⟨q,args,_,hq | ⟨_,_,hq⟩⟩
    · rw [hq]
      exact hon
    · rw [hq]
      exact switchOn_cycle (hpulled q)
    · rw [hq]
      exact switchOn_selfTest (switchOn_cycle (hpulled q))
  | apiSyncRun => exact switchOn_cycle hon
  | v1SyncRun => exact switchOn_cycle hon
  | syntheticRun => exact switchOn_selfTest hon
  | elsewhere hsame => exact hsame.1.trans hon

/-- While the switch is on, a guarded step calls no `apply`. -/
theorem applied_step {t : Transition World Event} (hs : Step E t.before t.label t.after) (hg : Guarded E t)
    (hon : SwitchOn t.before) : t.after.applied = t.before.applied := by
  obtain ⟨w,e,w'⟩ := t
  change Step E w e w' at hs
  change SwitchOn w at hon
  change w'.applied = w.applied
  cases hs with
  | start =>
    rcases World.start_cases E w with hw | ⟨_,p,hw⟩
    · rw [hw]
    · rw [hw]
  | stop => rfl
  | promote => rfl
  | demote => rfl
  | saveSettings => rfl
  | @tick p now hasSources pulled targets probes hp hsame =>
    rcases tick_cases E w p now hasSources pulled targets probes with ⟨q,hq⟩ | ⟨q,args,hdry,hq | ⟨hcycle,hdue,hq⟩⟩
    · rw [hq]
    · rw [hq, applied_cycle (Or.inl (hdry hon))]
      rfl
    · have hon' : SwitchOn (w.afterPulls q pulled) := hsame.1.trans hon
      have htargets : ((w.afterPulls q pulled).cycle E args targets).store.targets = w.store.targets :=
        (store_cycle (w.afterPulls q pulled) args targets).2
      have hquiet : ∀ r ∈ probes, ¬ DbLive ((w.afterPulls q pulled).cycle E args targets).store.targets r.target := by
        rw [htargets]
        exact hg ⟨p,hp,hcycle⟩ hdue
      have happlied : ((w.afterPulls q pulled).cycle E args targets).applied = w.applied := applied_cycle (Or.inl (hdry hon))
      rw [hq, applied_selfTest (switchOn_cycle hon') hquiet, happlied]
  | apiSyncRun => exact applied_cycle hg
  | v1SyncRun =>
    apply applied_cycle
    left
    change decide (orElse (w.store.db.settings "settings.dry_run") "1" = "1") = true
    rw [hon]
    rfl
  | syntheticRun => exact applied_selfTest hon hg
  | elsewhere hsame => rfl

end

/-- From the saving of the switch as 1 until it is saved as 0, a run of guarded steps calls no
target's `apply`. -/
theorem dry_run_respected (E : Env) {w₀ w : World} {ts : List (Transition World Event)} (h : Trace (Step E) w₀ ts w)
    (hon : SwitchOn w₀) (hstay : ∀ t ∈ ts, StaysOn t.label) (hguard : ∀ t ∈ ts, Guarded E t) :
    ∀ t ∈ ts, t.after.applied = t.before.applied := by
  intro t ht
  have hinv := (h.invariant (I := SwitchOn) (C := fun t => StaysOn t.label) hon
    (fun u hu hc hI => switchOn_step hu hc hI) hstay).2
  exact applied_step (h.mem_step t ht) (hguard t ht) (hinv t ht).1

/-! ## A live target while the switch is on -/

def edge : Target where
  name := "edge"
  kind := "mikrotik"
  isConfigured := .ok true
  snapshot := .ok []
  isConfiguredAgain := .ok true
  apply _ _ := .ok {}

def bannedRow : DecisionRow where
  id := 0
  originSource := "local"
  lapiId := 7
  value := "203.0.113.7"
  scope := "Ip"
  type := "ban"
  scenario := "ssh-bf"
  origin := "crowdsec"
  duration := "4h"
  untilAt := none
  firstSeenAt := ""
  lastSeenAt := ""
  deletedAt := none

/-- One ban, one target out of dry-run, and the switch saved as 1. -/
def switchedOn : World where
  store := ⟨(Db.empty.upsertDecision bannedRow id Db.key_id).setSetting "settings.dry_run" "1",
    ⟨[⟨"edge","mikrotik",true,0⟩],List.nodup_singleton _⟩,[],0,[]⟩
  poller := none
  applied := []

/-- An environment with the given `DRY_RUN`. -/
def exampleEnv (dryRun : Option String) : Env where
  caseMap := .ascii
  charTable := .ascii
  compile _ := none
  reputation _ := none
  parseIso _ := none
  dryRun := dryRun

theorem switchOn_switchedOn : SwitchOn switchedOn := by
  unfold SwitchOn switchedOn
  simp

theorem dry_run_respected_example :
    ∃ w ts, Trace (Step (exampleEnv none)) switchedOn ts w ∧ ts.length = 2 ∧ ∀ t ∈ ts, t.after.applied = t.before.applied := by
  have h := (Trace.single (@Step.apiSyncRun (exampleEnv none) switchedOn 0 [edge])).snoc
    (@Step.v1SyncRun (exampleEnv none) (switchedOn.apiSyncRun (exampleEnv none) 0 [edge]) 0 [edge])
  have hquiet := dry_run_respected (exampleEnv none) h switchOn_switchedOn
    (by
      intro t ht
      simp only [List.cons_append, List.nil_append, List.mem_cons, List.not_mem_nil, or_false] at ht
      rcases ht with rfl | rfl
      · exact fun _ _ => by simp
      · exact fun _ _ => by simp)
    (by
      intro t ht
      simp only [List.cons_append, List.nil_append, List.mem_cons, List.not_mem_nil, or_false] at ht
      rcases ht with rfl | rfl
      · exact Or.inl (by decide)
      · trivial)
  exact ⟨_,_,h,rfl,hquiet⟩

/-- With `DRY_RUN=false` in the environment the sync route writes to the router. -/
theorem sync_route_writes_in_dry_run :
    ∃ w, Trace (Step (exampleEnv (some "false"))) switchedOn [⟨switchedOn,.apiSyncRun 0 [edge],w⟩] w ∧ SwitchOn switchedOn ∧
      w.applied ≠ switchedOn.applied := by
  refine ⟨switchedOn.apiSyncRun (exampleEnv (some "false")) 0 [edge],Trace.single Step.apiSyncRun,switchOn_switchedOn,?_⟩
  have happlied : (switchedOn.apiSyncRun (exampleEnv (some "false")) 0 [edge]).applied =
      [⟨"edge",[("203.0.113.7","protek:local:ssh-bf:7")],[]⟩] := by decide
  rw [happlied]
  exact List.cons_ne_nil _ _

end Protek.Targets
