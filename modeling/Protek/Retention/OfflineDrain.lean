import Mathlib.Logic.Relation
import Protek.Foundation.RankedSweep
import Protek.Retention.Sweep

/-! # Sweeps beside one another, and the drain script

Sweeps of several processes may run at once, each by a cutoff it has read earlier, and any of them may be
cut short. What they leave in the end is what one sweep would have left, and so does the offline drain.
-/
namespace Protek.Retention
open Foundation Foundation.PyText Foundation.BatchedDrain Foundation.RankedSweep Protek.Store
open Protek.Policy (settingInt cutoffId pendingDecisionIds)

def decisionsRule (db : Db) (cap : ℕ) : Rule DecisionRow where
  id := DecisionRow.id
  candidate := fun r => !r.active
  pinned := fun r => (r.id : ℤ) ∈ pendingDecisionIds db
  cap := cap

theorem candidate_decisionsRule {db : Db} {cap : ℕ} {r : DecisionRow} (h : r.active = false) :
    (decisionsRule db cap).candidate r = true := by
  change (!r.active) = true
  rw [h]
  rfl

def pushesRule (cap : ℕ) : Rule PushRow where
  id := PushRow.id
  candidate := fun _ => true
  pinned := fun _ => false
  cap := cap

/-- The tables once nothing is beyond the caps. -/
structure Settled (cap mtCap : ℕ) (s t : Tables) : Prop where
  decisions : t.db.decisions.rows = settled (decisionsRule s.db cap) s.db.decisions.rows
  pushes : t.mtPushes.rows = settled (pushesRule mtCap) s.mtPushes.rows

/-! ## Sweeps beside one another -/

/-- The cutoff that a sweep goes by. -/
inductive Cutoff
  | decisions (c : ℕ)
  | pushes (c : ℕ)
  deriving DecidableEq, Repr

structure Sweepers (P : Type) where
  tables : Tables
  goesBy : P → Option Cutoff

variable {P : Type} [DecidableEq P]

/-- A sweep reads a cutoff, or runs one more batch up to the cutoff it has; it may rest for ever after either. -/
inductive SweepStep (cap mtCap : ℕ) : Sweepers P → Sweepers P → Prop
  | cutoff {w : Sweepers P} {p : P} {c : ℕ} (h : cutoffId w.tables.db cap = some c) :
      SweepStep cap mtCap w { w with goesBy := Function.update w.goesBy p (some (.decisions c)) }
  | pushCutoff {w : Sweepers P} {p : P} {c : ℕ} (h : pushCutoffId w.tables mtCap = some c) :
      SweepStep cap mtCap w { w with goesBy := Function.update w.goesBy p (some (.pushes c)) }
  | batch {w : Sweepers P} {p : P} {c : ℕ} {size : ℤ} (h : w.goesBy p = some (.decisions c)) :
      SweepStep cap mtCap w { w with tables := (deleteDecisions c size w.tables).2 }
  | pushBatch {w : Sweepers P} {p : P} {c : ℕ} {size : ℤ} (h : w.goesBy p = some (.pushes c)) :
      SweepStep cap mtCap w { w with tables := (deletePushes c size w.tables).2 }

abbrev Sweeps (cap mtCap : ℕ) (w w' : Sweepers P) : Prop := Relation.ReflTransGen (SweepStep cap mtCap) w w'

def Sweepers.start (s : Tables) : Sweepers P := ⟨s,fun _ => none⟩

/-- How far the sweeps of `s` are: a cutoff in use tells what was beyond the cap in `s`. -/
structure Progress (cap mtCap : ℕ) (s : Tables) (w : Sweepers P) : Prop where
  rest : w.tables.db = { s.db with decisions := w.tables.db.decisions }
  decisions : Swept (decisionsRule s.db cap) s.db.decisions.rows w.tables.db.decisions.rows
  pushes : Swept (pushesRule mtCap) s.mtPushes.rows w.tables.mtPushes.rows
  cutoffs : ∀ p c, w.goesBy p = some (.decisions c) → ∀ r ∈ w.tables.db.decisions.rows, r.active = false →
    (r.id ≤ c ↔ cap ≤ newer (decisionsRule s.db cap) s.db.decisions.rows r.id)
  pushCutoffs : ∀ p c, w.goesBy p = some (.pushes c) → ∀ r ∈ w.tables.mtPushes.rows,
    (r.id ≤ c ↔ mtCap ≤ newer (pushesRule mtCap) s.mtPushes.rows r.id)

theorem nodup_decisions (s : Tables) : s.db.decisions.rows.Nodup := List.Nodup.of_map _ s.ids

theorem nodup_pushes (s : Tables) : s.mtPushes.rows.Nodup := List.Nodup.of_map _ s.mtPushes.nodup

section
variable {cap mtCap : ℕ} {s : Tables}

omit [DecidableEq P] in
theorem Progress.start (s : Tables) : Progress cap mtCap s (Sweepers.start s : Sweepers P) where
  rest := rfl
  decisions := .refl _ _
  pushes := .refl _ _
  cutoffs _ _ h := by cases h
  pushCutoffs _ _ h := by cases h

variable {w w' : Sweepers P}

omit [DecidableEq P] in
theorem Progress.pending (h : Progress cap mtCap s w) : pendingDecisionIds w.tables.db = pendingDecisionIds s.db := by
  rw [h.rest]
  rfl

omit [DecidableEq P] in
theorem Progress.rule_eq (h : Progress cap mtCap s w) : decisionsRule w.tables.db cap = decisionsRule s.db cap := by
  unfold decisionsRule
  rw [h.pending]

omit [DecidableEq P] in
/-- A cutoff that is read now tells what was beyond the cap at the start. -/
theorem Progress.le_cutoff_iff (h : Progress cap mtCap s w) {c : ℕ} (hc : cutoffId w.tables.db cap = some c) {r : DecisionRow}
    (hr : r ∈ w.tables.db.decisions.rows) (hdead : r.active = false) :
    r.id ≤ c ↔ cap ≤ newer (decisionsRule s.db cap) s.db.decisions.rows r.id := by
  have hids : ((w.tables.db.decisions.rows.filter (decisionsRule s.db cap).candidate).map (decisionsRule s.db cap).id).Nodup :=
    ids_tombstones w.tables
  exact (RankedSweep.le_cutoff_iff hids hc hr (candidate_decisionsRule hdead)).trans (h.decisions.newer_iff (nodup_decisions s) r.id)

omit [DecidableEq P] in
theorem Progress.le_pushCutoff_iff (h : Progress cap mtCap s w) {c : ℕ} (hc : pushCutoffId w.tables mtCap = some c) {r : PushRow}
    (hr : r ∈ w.tables.mtPushes.rows) : r.id ≤ c ↔ mtCap ≤ newer (pushesRule mtCap) s.mtPushes.rows r.id := by
  have hall : w.tables.mtPushes.rows.filter (pushesRule mtCap).candidate = w.tables.mtPushes.rows :=
    List.filter_eq_self.mpr (fun _ _ => rfl)
  have hids : ((w.tables.mtPushes.rows.filter (pushesRule mtCap).candidate).map (pushesRule mtCap).id).Nodup := by
    rw [hall]
    exact w.tables.mtPushes.nodup
  have hcut : Ranking.cutoff ((w.tables.mtPushes.rows.filter (pushesRule mtCap).candidate).map (pushesRule mtCap).id)
      (pushesRule mtCap).cap = some c := by
    rw [hall]
    exact hc
  exact (RankedSweep.le_cutoff_iff hids hcut hr rfl).trans (h.pushes.newer_iff (nodup_pushes s) r.id)

theorem goesBy_update {f : P → Option Cutoff} {p q : P} {x y : Cutoff} (h : Function.update f p (some x) q = some y) :
    x = y ∨ f q = some y := by
  by_cases hq : q = p
  · rw [hq, Function.update_self] at h
    exact Or.inl (Option.some_inj.mp h)
  · rw [Function.update_of_ne hq] at h
    exact Or.inr h

theorem Progress.step (h : Progress cap mtCap s w) (hstep : SweepStep cap mtCap w w') : Progress cap mtCap s w' := by
  cases hstep with
  | @cutoff p c hc =>
    refine { h with cutoffs := fun q d hq => ?_, pushCutoffs := fun q d hq => ?_ }
    · rcases goesBy_update hq with hcd | hq
      · cases hcd
        exact fun r hr hdead => h.le_cutoff_iff hc hr hdead
      · exact h.cutoffs q d hq
    · rcases goesBy_update hq with hcd | hq
      · cases hcd
      · exact h.pushCutoffs q d hq
  | @pushCutoff p c hc =>
    refine { h with cutoffs := fun q d hq => ?_, pushCutoffs := fun q d hq => ?_ }
    · rcases goesBy_update hq with hcd | hq
      · cases hcd
      · exact h.cutoffs q d hq
    · rcases goesBy_update hq with hcd | hq
      · cases hcd
        exact fun r hr => h.le_pushCutoff_iff hc hr
      · exact h.pushCutoffs q d hq
  | @batch p c size hgoes =>
    have hsub : (deleteDecisions c size w.tables).2.db.decisions.rows.Sublist w.tables.db.decisions.rows := List.filter_sublist
    refine ⟨congrArg (fun db : Db => { db with decisions := (deleteDecisions c size w.tables).2.db.decisions }) h.rest,
      ⟨hsub.trans h.decisions.sublist,fun r hr hnot => ?_⟩,h.pushes,
      fun q d hq r hr => h.cutoffs q d hq r (hsub.subset hr),h.pushCutoffs⟩
    have hmem := h.decisions.kept r hr hnot
    refine mem_deleteDecisions.mpr ⟨hmem,fun ⟨hdead,hid⟩ => hnot ?_⟩
    obtain ⟨q,hq,hdel,hqr⟩ := exists_of_mem_oldestIds hid
    obtain rfl : q = r := List.inj_on_of_nodup_map w.tables.ids hq hmem hqr
    simp only [Deletable, decide_eq_true_eq, Bool.not_eq_true'] at hdel
    refine ⟨candidate_decisionsRule hdead,?_,(h.cutoffs p c hgoes q hmem hdead).mp hdel.2.1⟩
    exact decide_eq_false (h.pending ▸ hdel.2.2)
  | @pushBatch p c size hgoes =>
    have hsub : (deletePushes c size w.tables).2.mtPushes.rows.Sublist w.tables.mtPushes.rows := List.filter_sublist
    refine ⟨h.rest,h.decisions,⟨hsub.trans h.pushes.sublist,fun r hr hnot => ?_⟩,h.cutoffs,
      fun q d hq r hr => h.pushCutoffs q d hq r (hsub.subset hr)⟩
    have hmem := h.pushes.kept r hr hnot
    refine mem_deletePushes.mpr ⟨hmem,fun hid => hnot ?_⟩
    obtain ⟨q,hq,hdel,hqr⟩ := exists_of_mem_oldestIds hid
    obtain rfl : q = r := List.inj_on_of_nodup_map w.tables.mtPushes.nodup hq hmem hqr
    exact ⟨rfl,rfl,(h.pushCutoffs p c hgoes q hmem).mp (of_decide_eq_true hdel)⟩

theorem Progress.run (h : Progress cap mtCap s w) (hrun : Sweeps cap mtCap w w') : Progress cap mtCap s w' := by
  induction hrun with
  | refl => exact h
  | tail _ hstep ih => exact ih.step hstep

omit [DecidableEq P] in
/-- A sweep that finds nothing more to delete up to its cutoff, which it may have read long ago, has come to the end of all. -/
theorem Progress.eq_settled (h : Progress cap mtCap s w) {p : P} {c : ℕ} (hgoes : w.goesBy p = some (.decisions c)) {size : ℤ}
    (hsize : 1 ≤ size) (hempty : (deleteDecisions c size w.tables).1 = 0) :
    w.tables.db.decisions.rows = settled (decisionsRule s.db cap) s.db.decisions.rows := by
  refine h.decisions.eq_settled (nodup_decisions s) (fun r hr hbeyond => ?_)
  obtain ⟨hdead,hfree,hcap⟩ := hbeyond
  have hdead' : r.active = false := by simpa [decisionsRule] using hdead
  have hnot := not_deletable_of_empty hsize hempty hr
  simp only [Deletable, decide_eq_false_iff_not] at hnot
  exact hnot ⟨hdead,(h.cutoffs p c hgoes r hr hdead').mpr hcap,h.pending ▸ of_decide_eq_false hfree⟩

omit [DecidableEq P] in
theorem Progress.eq_settled_pushes (h : Progress cap mtCap s w) {p : P} {c : ℕ} (hgoes : w.goesBy p = some (.pushes c)) {size : ℤ}
    (hsize : 1 ≤ size) (hempty : (deletePushes c size w.tables).1 = 0) :
    w.tables.mtPushes.rows = settled (pushesRule mtCap) s.mtPushes.rows := by
  refine h.pushes.eq_settled (nodup_pushes s) (fun r hr hbeyond => ?_)
  exact absurd (not_below_of_empty hsize hempty hr) (not_lt.mpr ((h.pushCutoffs p c hgoes r hr).mpr hbeyond.2.2))

end

/-- Whatever sweeps run beside one another and wherever each of them stops, the rows that are left once nothing is beyond the
caps stay the same, and one sweep that finds no row more brings its table there. -/
theorem sweeps_agree {P : Type} [DecidableEq P] {cap mtCap : ℕ} {s : Tables} {w : Sweepers P}
    (h : Sweeps cap mtCap (Sweepers.start s) w) :
    settled (decisionsRule w.tables.db cap) w.tables.db.decisions.rows = settled (decisionsRule s.db cap) s.db.decisions.rows ∧
    settled (pushesRule mtCap) w.tables.mtPushes.rows = settled (pushesRule mtCap) s.mtPushes.rows ∧
    ∀ (p : P) (c : ℕ) (size : ℤ), 1 ≤ size →
      (w.goesBy p = some (.decisions c) → (deleteDecisions c size w.tables).1 = 0 →
        w.tables.db.decisions.rows = settled (decisionsRule s.db cap) s.db.decisions.rows) ∧
      (w.goesBy p = some (.pushes c) → (deletePushes c size w.tables).1 = 0 →
        w.tables.mtPushes.rows = settled (pushesRule mtCap) s.mtPushes.rows) := by
  have hp := (Progress.start s).run h
  refine ⟨?_,hp.pushes.settled_eq (nodup_pushes s),fun p c size hsize => ⟨?_,?_⟩⟩
  · rw [hp.rule_eq]
    exact hp.decisions.settled_eq (nodup_decisions s)
  · exact fun hgoes hempty => hp.eq_settled hgoes hsize hempty
  · exact fun hgoes hempty => hp.eq_settled_pushes hgoes hsize hempty

def bothCutoffs : Sweepers Bool := ⟨exampleTables,fun _ => some (.decisions 2)⟩

/-- Two sweeps with the same cutoff delete one row each. -/
def bothSwept : Sweepers Bool := ⟨(deleteDecisions 2 1 (deleteDecisions 2 1 exampleTables).2).2,bothCutoffs.goesBy⟩

theorem bothSwept_run : Sweeps 1 500000 (Sweepers.start exampleTables) bothSwept := by
  have hcut : cutoffId exampleTables.db 1 = some 2 := by decide
  have hgoes : Function.update (Function.update (Sweepers.start exampleTables).goesBy true (some (.decisions 2))) false
      (some (.decisions 2)) = bothCutoffs.goesBy := by
    funext p
    cases p <;> rfl
  have hfirst : Sweeps 1 500000 (Sweepers.start exampleTables) ⟨exampleTables,Function.update _ true (some (.decisions 2))⟩ :=
    .single (.cutoff hcut)
  have hboth : Sweeps 1 500000 (Sweepers.start exampleTables) ⟨exampleTables,Function.update _ false (some (.decisions 2))⟩ :=
    hfirst.tail (.cutoff hcut)
  rw [hgoes] at hboth
  exact (hboth.tail (.batch (p := false) rfl)).tail (.batch (p := true) rfl)

theorem sweeps_agree_example :
    bothSwept.tables.db.decisions.rows = settled (decisionsRule exampleTables.db 1) exampleTables.db.decisions.rows :=
  ((sweeps_agree bothSwept_run).2.2 true 2 1 le_rfl).1 rfl (by decide)

/-! ## One pass among the sweeps -/

theorem deleteDecisions_of_empty {c : ℕ} {size : ℤ} {s : Tables} (h : (deleteDecisions c size s).1 = 0) :
    (deleteDecisions c size s).2.db.decisions.rows = s.db.decisions.rows ∧
      (deleteDecisions c size s).2.mtPushes = s.mtPushes := by
  have hsub : (deleteDecisions c size s).2.db.decisions.rows.Sublist s.db.decisions.rows := List.filter_sublist
  exact ⟨hsub.eq_of_length_le (Nat.sub_eq_zero_iff_le.mp h),rfl⟩

theorem deletePushes_of_empty {c : ℕ} {size : ℤ} {s : Tables} (h : (deletePushes c size s).1 = 0) :
    (deletePushes c size s).2.mtPushes.rows = s.mtPushes.rows ∧ (deletePushes c size s).2.db = s.db := by
  have hsub : (deletePushes c size s).2.mtPushes.rows.Sublist s.mtPushes.rows := List.filter_sublist
  exact ⟨hsub.eq_of_length_le (Nat.sub_eq_zero_iff_le.mp h),rfl⟩

/-- A loop over the batches of `delete`: what each batch keeps holds at its end, and where it came to its end of its own
accord the last batch was empty. -/
def Loops (delete : Tables → ℕ × Tables) (s t : Tables) (ended : Prop) : Prop :=
  ∀ I : Tables → Prop, I s → (∀ u, I u → I (delete u).2) → I t ∧ (ended → ∃ u, I u ∧ (delete u).1 = 0 ∧ t = (delete u).2)

section
variable {P : Type} [DecidableEq P] {cap mtCap : ℕ} {s t : Tables} {w : Sweepers P} {ended : Prop} {size : ℤ}

/-- A loop by one process is a run of its batches. -/
theorem sweeps_of_loops {delete : Tables → ℕ × Tables} {p : P} {x : Cutoff} (h : Loops delete w.tables t ended)
    (hgoes : w.goesBy p = some x)
    (hstep : ∀ v : Sweepers P, v.goesBy p = some x → SweepStep cap mtCap v { v with tables := (delete v.tables).2 }) :
    ∃ w' : Sweepers P, Sweeps cap mtCap w w' ∧ w'.tables = t ∧ (ended → ∃ v : Sweepers P, Sweeps cap mtCap w v ∧
      v.goesBy p = some x ∧ (delete v.tables).1 = 0 ∧ t = (delete v.tables).2) := by
  obtain ⟨⟨w',hw',htables,-⟩,hended⟩ := h (fun u => ∃ v : Sweepers P, Sweeps cap mtCap w v ∧ v.tables = u ∧ v.goesBy p = some x)
    ⟨w,.refl,rfl,hgoes⟩ (by
      rintro u ⟨v,hv,rfl,hx⟩
      exact ⟨_,hv.tail (hstep v hx),rfl,hx⟩)
  refine ⟨w',hw',htables,fun he => ?_⟩
  obtain ⟨u,⟨v,hv,rfl,hx⟩,hzero,ht⟩ := hended he
  exact ⟨v,hv,hx,hzero,ht⟩

/-- A pass over the decisions: it reads a cutoff and loops, or finds none. -/
theorem Progress.passDecisions (h : Progress cap mtCap s w) (p : P) (hnone : cutoffId w.tables.db cap = none → t = w.tables)
    (hsome : ∀ c, cutoffId w.tables.db cap = some c → Loops (deleteDecisions c size) w.tables t ended) :
    ∃ w' : Sweepers P, Sweeps cap mtCap w w' ∧ w'.tables = t ∧
      (ended → 1 ≤ size → t.db.decisions.rows = settled (decisionsRule s.db cap) s.db.decisions.rows) := by
  cases hc : cutoffId w.tables.db cap with
  | none =>
    refine ⟨w,.refl,(hnone hc).symm,fun _ _ => ?_⟩
    rw [hnone hc]
    refine h.decisions.eq_settled (nodup_decisions s) (fun r hr hbeyond => ?_)
    obtain ⟨hcand,-,hcap⟩ := hbeyond
    have hlt := RankedSweep.newer_lt_of_no_cutoff (R := decisionsRule s.db cap) hc hr hcand
    exact absurd ((h.decisions.newer_iff (nodup_decisions s) r.id).mpr hcap) (not_le.mpr hlt)
  | some c =>
    have hfirst : Sweeps cap mtCap w { w with goesBy := Function.update w.goesBy p (some (.decisions c)) } := .single (.cutoff hc)
    obtain ⟨w',hrun,htables,hended⟩ := @sweeps_of_loops P _ cap mtCap t { w with goesBy := Function.update w.goesBy p _ } ended _ p _
      (hsome c hc) (Function.update_self _ _ _) (fun v hv => .batch hv)
    refine ⟨w',hfirst.trans hrun,htables,fun he hsize => ?_⟩
    obtain ⟨v,hv,hgoes,hzero,rfl⟩ := hended he
    rw [(deleteDecisions_of_empty hzero).1]
    exact (h.run (hfirst.trans hv)).eq_settled hgoes hsize hzero

theorem Progress.passPushes (h : Progress cap mtCap s w) (p : P) (hnone : pushCutoffId w.tables mtCap = none → t = w.tables)
    (hsome : ∀ c, pushCutoffId w.tables mtCap = some c → Loops (deletePushes c size) w.tables t ended) :
    ∃ w' : Sweepers P, Sweeps cap mtCap w w' ∧ w'.tables = t ∧
      (ended → 1 ≤ size → t.mtPushes.rows = settled (pushesRule mtCap) s.mtPushes.rows) := by
  cases hc : pushCutoffId w.tables mtCap with
  | none =>
    refine ⟨w,.refl,(hnone hc).symm,fun _ _ => ?_⟩
    rw [hnone hc]
    refine h.pushes.eq_settled (nodup_pushes s) (fun r hr hbeyond => ?_)
    have hall : w.tables.mtPushes.rows.filter (pushesRule mtCap).candidate = w.tables.mtPushes.rows :=
      List.filter_eq_self.mpr (fun _ _ => rfl)
    have hlt := RankedSweep.newer_lt_of_no_cutoff (R := pushesRule mtCap) (hall.symm ▸ hc) hr rfl
    exact absurd ((h.pushes.newer_iff (nodup_pushes s) r.id).mpr hbeyond.2.2) (not_le.mpr hlt)
  | some c =>
    have hfirst : Sweeps cap mtCap w { w with goesBy := Function.update w.goesBy p (some (.pushes c)) } := .single (.pushCutoff hc)
    obtain ⟨w',hrun,htables,hended⟩ := @sweeps_of_loops P _ cap mtCap t { w with goesBy := Function.update w.goesBy p _ } ended _ p _
      (hsome c hc) (Function.update_self _ _ _) (fun v hv => .pushBatch hv)
    refine ⟨w',hfirst.trans hrun,htables,fun he hsize => ?_⟩
    obtain ⟨v,hv,hgoes,hzero,rfl⟩ := hended he
    rw [(deletePushes_of_empty hzero).1]
    exact (h.run (hfirst.trans hv)).eq_settled_pushes hgoes hsize hzero

end

/-! ## The sweep of the service -/

theorem loops_drainTo {world : ℕ → Moment ℚ} {deadline : ℚ} {delete : ℕ → ℤ → Tables → ℕ × Tables} {size : ℤ} {fuel k : ℕ}
    {cutoff : Option ℕ} {s : Tables} {d : Drained Tables} (h : drainTo world deadline delete size fuel k cutoff s = some d) :
    (cutoff = none → d.state = s) ∧ ∀ c, cutoff = some c → Loops (delete c size) s d.state (d.stop = .empty) := by
  constructor
  · rintro rfl
    cases h
    rfl
  · rintro c rfl I hI hstep
    obtain ⟨hstate,-,-,hempty⟩ := drain_spec (I := I) h hI hstep
    exact ⟨hstate,hempty⟩

section
variable {P : Type} [DecidableEq P] {T : CharTable} {cap mtCap : ℕ} {s t : Tables} {w : Sweepers P} {world : ℕ → Moment ℚ}
  {deadline : ℚ} {fuel k removed : ℕ} {size : ℤ} {r : PruneResult} {maxSeconds batch : Option ℤ}

theorem Progress.prunePushes (h : Progress cap mtCap s w) (p : P) (hclock : Monotone (fun i => (world i).now))
    (hp : prunePushes world fuel k size mtCap deadline removed w.tables = some (r,t)) :
    ∃ w' : Sweepers P, Sweeps cap mtCap w w' ∧ w'.tables = t ∧ (r.status = "ok" → r.truncated = some false → 1 ≤ size →
      t.mtPushes.rows = settled (pushesRule mtCap) s.mtPushes.rows) := by
  obtain ⟨-,-,hend⟩ := prunePushes_spec hclock hp
  cases herr : (bind mtCap (world k)).error with
  | some text =>
    rw [prunePushes_of_error herr] at hp
    cases hp
    exact ⟨w,.refl,rfl,fun hok => by simp at hok⟩
  | none =>
    rw [prunePushes_of_drain herr] at hp
    obtain ⟨m,hm,hanswer⟩ := Option.map_eq_some_iff.mp hp
    obtain ⟨hnone,hloops⟩ := loops_drainTo hm
    have hstate : m.state = t := by
      unfold pushesAnswer at hanswer
      split at hanswer <;> exact congrArg Prod.snd hanswer
    subst hstate
    obtain ⟨w',hrun,htables,-⟩ := h.passPushes p hnone hloops
    refine ⟨w',hrun,htables,fun hok hfull hsize => ?_⟩
    -- within the cap nothing is beyond it
    have hle := (hend hok hfull).2 hsize
    have hswept := (h.run hrun).pushes
    rw [htables] at hswept
    refine hswept.eq_settled (nodup_pushes s) (fun q hq hbeyond => ?_)
    have hlt : newer (pushesRule mtCap) m.state.mtPushes.rows q.id < m.state.mtPushes.rows.length :=
      (newer_lt_countP (R := pushesRule mtCap) hq rfl).trans_le List.countP_le_length
    exact absurd ((hswept.newer_iff (nodup_pushes s) q.id).mpr hbeyond.2.2) (not_le.mpr (hlt.trans_le hle))

/-- A sweep of the service among the others, and what it leaves when it answers that it is through. -/
theorem Progress.prune (h : Progress (decisionsCap T s) (pushesCap T s) s w) (p : P) (hclock : Monotone (fun i => (world i).now))
    (hp : prune T world fuel w.tables maxSeconds batch = some (r,t)) :
    ∃ w' : Sweepers P, Sweeps (decisionsCap T s) (pushesCap T s) w w' ∧ w'.tables = t ∧
      (r.status = "ok" → r.truncated = some false → 1 ≤ batchSize T s batch →
        Settled (decisionsCap T s) (pushesCap T s) s t) := by
  have hsettings : w.tables.db.settings = s.db.settings := by rw [h.rest]
  have hcap : decisionsCap T w.tables = decisionsCap T s := by rw [decisionsCap, decisionsCap, settingInt, settingInt, hsettings]
  have hmtCap : pushesCap T w.tables = pushesCap T s := by rw [pushesCap, pushesCap, settingInt, settingInt, hsettings]
  have hbatch : batchSize T w.tables batch = batchSize T s batch := by rw [batchSize, batchSize, settingInt, settingInt, hsettings]
  by_cases hon : orElse (w.tables.db.settings "retention.enabled") "1" = "1"
  · cases herr : (bind (decisionsCap T w.tables) (world 1)).error with
    | some text =>
      rw [prune_of_error hon herr] at hp
      cases hp
      exact ⟨w,.refl,rfl,fun hok => by simp at hok⟩
    | none =>
      rw [prune_of_drain hon herr, hcap] at hp
      obtain ⟨d,hd,hafter⟩ := Option.bind_eq_some_iff.mp hp
      obtain ⟨hnone,hloops⟩ := loops_drainTo hd
      obtain ⟨v,hv,hstate,hend⟩ := h.passDecisions p hnone hloops
      unfold afterDecisions at hafter
      rw [← hstate] at hafter hend
      split at hafter
      · cases hafter
        exact ⟨v,hv,rfl,fun hok => by simp at hok⟩
      · next hfail =>
        rw [hmtCap] at hafter
        obtain ⟨w',hrun,htables,hpushes⟩ := (h.run hv).prunePushes p hclock hafter
        refine ⟨w',hv.trans hrun,htables,fun hok hfull hsize => ⟨?_,hpushes hok hfull (hbatch ▸ hsize)⟩⟩
        obtain ⟨hdb,-,hearly⟩ := prunePushes_spec hclock hafter
        have hstop : d.stop = .empty := by
          obtain ⟨htimed,-⟩ := drainTo_decisions (hcap ▸ hd)
          cases hstop : d.stop with
          | empty => rfl
          | failed text => exact absurd hstop (hfail text)
          | deadline =>
            obtain ⟨i,hi,hlate⟩ := htimed.late hstop
            exact absurd hlate (not_le.mpr ((hearly hok hfull).1 i hi))
        rw [hdb]
        exact hend hstop (hbatch ▸ hsize)
  · unfold Retention.prune at hp
    rw [if_pos hon] at hp
    cases hp
    exact ⟨w,.refl,rfl,fun hok => by simp at hok⟩

end

/-! ## The drain script -/

namespace DrainTombstones

/-- What the script meets at a statement and around a batch. -/
structure Boundary where
  interrupted : Bool := false
  error : Option String := none
  checkpointError : Option String := none
  busy : Bool := false
  low : Bool := false
  deriving DecidableEq, Repr

inductive DrainStop
  | interrupted
  | empty
  | raised (text : String)
  | blocked
  | low
  deriving DecidableEq, Repr

structure ScriptDrain where
  stop : DrainStop
  removed : ℕ
  next : ℕ
  state : Tables

/-- `drain`: the checkpoint and the look at the free space stand behind each batch that deleted something. -/
def drain (world : ℕ → Boundary) (delete : Tables → ℕ × Tables) : ℕ → ℕ → ℕ → Tables → Option ScriptDrain
  | 0, _, _, _ => none
  | fuel + 1, k, removed, s =>
    if (world k).interrupted then some ⟨.interrupted,removed,k + 1,s⟩
    else match (world k).error with
      | some text => some ⟨.raised text,removed,k + 1,s⟩
      | none =>
        if (delete s).1 = 0 then some ⟨.empty,removed,k + 1,(delete s).2⟩
        else match (world k).checkpointError with
          | some text => some ⟨.raised text,removed + (delete s).1,k + 1,(delete s).2⟩
          | none =>
            if (world k).busy then some ⟨.blocked,removed + (delete s).1,k + 1,(delete s).2⟩
            else if (world k).low then some ⟨.low,removed + (delete s).1,k + 1,(delete s).2⟩
            else drain world delete fuel (k + 1) (removed + (delete s).1) (delete s).2

def bindInt (n : ℤ) (b : Boundary) : Boundary :=
  if fitsInt64 n then b else { b with error := some "Python int too large to convert to SQLite INTEGER" }

/-- One table: without a cutoff there is nothing beyond the cap. -/
def drainTable (world : ℕ → Boundary) (delete : ℕ → ℤ → Tables → ℕ × Tables) (batch : ℤ) (fuel k : ℕ) (cutoff : Option ℕ)
    (s : Tables) : Option ScriptDrain :=
  match cutoff with
  | none => some ⟨.empty,0,k,s⟩
  | some c => drain (fun i => bindInt batch (world i)) (delete c batch) fuel k 0 s

structure Args where
  keep : ℤ := 500000
  mtKeep : ℤ := 500000
  batch : ℤ := 50000
  dryRun : Bool := false
  yes : Bool := false
  deriving DecidableEq, Repr

/-- The host: whether the file is there, what the operator answers, whether stopping the service fails and whether
another process still holds the file. -/
structure Host where
  present : Bool := true
  confirmed : Bool := false
  stopError : Option String := none
  held : Bool := false
  world : ℕ → Boundary

inductive Outcome
  | exit (code : ℕ)
  | raised (text : String)
  | drained (decisions pushes : DrainStop)
  deriving DecidableEq, Repr

def drainPushes (args : Args) (host : Host) (fuel k : ℕ) (decisions : DrainStop) (s : Tables) : Option (Outcome × Tables) :=
  match (bindInt args.mtKeep (host.world k)).error with
  | some text => some (.raised text,s)
  | none =>
    (drainTable host.world deletePushes args.batch fuel (k + 1) (pushCutoffId s args.mtKeep.toNat) s).map (fun m =>
      match m.stop with
      | .raised text => (.raised text,m.state)
      | stop => (.drained decisions stop,m.state))

/-- What ends a run before its first statement. -/
def refusal (args : Args) (host : Host) : Option Outcome :=
  if host.present = false then some (.exit 1)
  else if args.dryRun then some (.exit 0)
  else if args.yes = false ∧ host.confirmed = false then some (.exit 1)
  else match host.stopError with
    | some text => some (.raised text)
    | none => if host.held then some (.exit 1) else none

/-- Both drains; a negative OFFSET is none. -/
def drainBoth (args : Args) (host : Host) (fuel : ℕ) (s : Tables) : Option (Outcome × Tables) :=
  match (bindInt args.keep (host.world 0)).error with
  | some text => some (.raised text,s)
  | none =>
    match drainTable host.world deleteDecisions args.batch fuel 1 (cutoffId s.db args.keep.toNat) s with
    | none => none
    | some d =>
      match d.stop with
      | .raised text => some (.raised text,d.state)
      | stop => drainPushes args host fuel d.next stop d.state

/-- `main`, but for VACUUM and the restart of the service. -/
def main (args : Args) (host : Host) (fuel : ℕ) (s : Tables) : Option (Outcome × Tables) :=
  match refusal args host with
  | some outcome => some (outcome,s)
  | none => drainBoth args host fuel s

section
variable {world : ℕ → Boundary} {delete : Tables → ℕ × Tables} {fuel k removed : ℕ} {s t : Tables} {d : ScriptDrain}

theorem loops_drain (h : drain world delete fuel k removed s = some d) : Loops delete s d.state (d.stop = .empty) := by
  induction fuel generalizing k removed s with
  | zero => cases h
  | succ fuel ih =>
    intro I hI hstep
    rw [drain] at h
    split at h
    · cases h
      exact ⟨hI,nofun⟩
    · split at h
      · cases h
        exact ⟨hI,nofun⟩
      · split at h
        · next hz =>
          cases h
          exact ⟨hstep s hI,fun _ => ⟨s,hI,hz,rfl⟩⟩
        · split at h
          · cases h
            exact ⟨hstep s hI,nofun⟩
          · split at h
            · cases h
              exact ⟨hstep s hI,nofun⟩
            · split at h
              · cases h
                exact ⟨hstep s hI,nofun⟩
              · exact ih h I (hstep s hI) hstep

theorem loops_drainTable {delete : ℕ → ℤ → Tables → ℕ × Tables} {batch : ℤ} {cutoff : Option ℕ}
    (h : drainTable world delete batch fuel k cutoff s = some d) :
    (cutoff = none → d.state = s) ∧ ∀ c, cutoff = some c → Loops (delete c batch) s d.state (d.stop = .empty) := by
  constructor
  · rintro rfl
    cases h
    rfl
  · rintro c rfl
    exact loops_drain h

end
end DrainTombstones

section
variable {P : Type} [DecidableEq P] {s t : Tables} {w : Sweepers P} {fuel : ℕ} {args : DrainTombstones.Args}
  {host : DrainTombstones.Host} {r : DrainTombstones.Outcome}

theorem DrainTombstones.refusal_ne (a b : DrainTombstones.DrainStop) (h : DrainTombstones.refusal args host = some r) :
    r ≠ .drained a b := by
  unfold DrainTombstones.refusal at h
  repeat' split at h
  all_goals cases h
  all_goals nofun

theorem Progress.scriptPushes {cap mtCap k : ℕ} {stop : DrainTombstones.DrainStop} (h : Progress cap mtCap s w) (p : P)
    (hcap : args.mtKeep.toNat = mtCap) (hp : DrainTombstones.drainPushes args host fuel k stop w.tables = some (r,t)) :
    ∃ w' : Sweepers P, Sweeps cap mtCap w w' ∧ w'.tables = t ∧ t.db = w.tables.db ∧ (r = .drained .empty .empty →
      stop = .empty ∧ (1 ≤ args.batch → t.mtPushes.rows = settled (pushesRule mtCap) s.mtPushes.rows)) := by
  subst hcap
  unfold DrainTombstones.drainPushes at hp
  split at hp
  · cases hp
    exact ⟨w,.refl,rfl,rfl,nofun⟩
  · obtain ⟨m,hm,hout⟩ := Option.map_eq_some_iff.mp hp
    obtain ⟨hnone,hloops⟩ := DrainTombstones.loops_drainTable hm
    obtain ⟨w',hrun,htables,hend⟩ := h.passPushes p hnone hloops
    have hdb : m.state.db = w.tables.db := by
      cases hc : pushCutoffId w.tables args.mtKeep.toNat with
      | none => rw [hnone hc]
      | some c => exact (hloops c hc (fun u => u.db = w.tables.db) rfl (fun u hu => hu)).1
    split at hout
    · cases hout
      exact ⟨w',hrun,htables,hdb,nofun⟩
    · cases hout
      refine ⟨w',hrun,htables,hdb,fun hr => ?_⟩
      obtain ⟨hstop,hm'⟩ := DrainTombstones.Outcome.drained.inj hr
      exact ⟨hstop,hend hm'⟩

/-- A run of the script among the sweeps, and what it leaves when both of its drains find no row more. -/
theorem Progress.script (h : Progress args.keep.toNat args.mtKeep.toNat s w) (p : P)
    (hp : DrainTombstones.main args host fuel w.tables = some (r,t)) :
    ∃ w' : Sweepers P, Sweeps args.keep.toNat args.mtKeep.toNat w w' ∧ w'.tables = t ∧
      (r = .drained .empty .empty → 1 ≤ args.batch → Settled args.keep.toNat args.mtKeep.toNat s t) := by
  unfold DrainTombstones.main at hp
  split at hp
  · next hrefusal =>
    cases hp
    exact ⟨w,.refl,rfl,fun hr => absurd hr (DrainTombstones.refusal_ne _ _ hrefusal)⟩
  · unfold DrainTombstones.drainBoth at hp
    split at hp
    · cases hp
      exact ⟨w,.refl,rfl,nofun⟩
    · split at hp
      · cases hp
      · next d hd =>
        obtain ⟨hnone,hloops⟩ := DrainTombstones.loops_drainTable hd
        obtain ⟨v,hv,hstate,hend⟩ := h.passDecisions p hnone hloops
        split at hp
        · cases hp
          exact ⟨v,hv,hstate,nofun⟩
        · rw [← hstate] at hp hend
          obtain ⟨w',hrun,htables,hdb,hpushes⟩ := (h.run hv).scriptPushes p rfl hp
          refine ⟨w',hv.trans hrun,htables,fun hr hsize => ?_⟩
          obtain ⟨hstop,hpushes⟩ := hpushes hr
          exact ⟨by rw [hdb]; exact hend hstop hsize,hpushes hsize⟩

end

/-! ## Passes one after the other -/

/-- A sweep of the service or a run of the script with the caps of the settings, and whether it says that it is through. -/
inductive Pass (T : CharTable) : Tables → Bool → Tables → Prop
  | sweep {s t : Tables} {world : ℕ → Moment ℚ} {fuel : ℕ} {maxSeconds batch : Option ℤ} {r : PruneResult}
      (hclock : Monotone (fun i => (world i).now)) (h : prune T world fuel s maxSeconds batch = some (r,t)) :
      Pass T s (r.status = "ok" ∧ r.truncated = some false ∧ 1 ≤ batchSize T s batch) t
  | script {s t : Tables} {args : DrainTombstones.Args} {host : DrainTombstones.Host} {fuel : ℕ} {r : DrainTombstones.Outcome}
      (hkeep : args.keep = decisionsCap T s) (hmtKeep : args.mtKeep = pushesCap T s)
      (h : DrainTombstones.main args host fuel s = some (r,t)) :
      Pass T s (r = .drained .empty .empty ∧ 1 ≤ args.batch) t

inductive Passes (T : CharTable) : Tables → Tables → Prop
  | refl (s : Tables) : Passes T s s
  | tail {s u t : Tables} {through : Bool} (h : Passes T s u) (hp : Pass T u through t) : Passes T s t

theorem Progress.caps {P : Type} {T : CharTable} {cap mtCap : ℕ} {s : Tables} {w : Sweepers P} (h : Progress cap mtCap s w) :
    decisionsCap T w.tables = decisionsCap T s ∧ pushesCap T w.tables = pushesCap T s := by
  have hsettings : w.tables.db.settings = s.db.settings := by rw [h.rest]
  exact ⟨by rw [decisionsCap, decisionsCap, settingInt, settingInt, hsettings],
    by rw [pushesCap, pushesCap, settingInt, settingInt, hsettings]⟩

theorem Progress.pass {P : Type} [DecidableEq P] {T : CharTable} {s t : Tables} {w : Sweepers P} {through : Bool} (p : P)
    (h : Progress (decisionsCap T s) (pushesCap T s) s w) (hp : Pass T w.tables through t) :
    ∃ w' : Sweepers P, Sweeps (decisionsCap T s) (pushesCap T s) w w' ∧ w'.tables = t ∧
      (through = true → Settled (decisionsCap T s) (pushesCap T s) s t) := by
  cases hp with
  | @sweep _ world fuel maxSeconds batch r hclock hp =>
    have hbatch : batchSize T w.tables batch = batchSize T s batch := by
      have hsettings : w.tables.db.settings = s.db.settings := by rw [h.rest]
      rw [batchSize, batchSize, settingInt, settingInt, hsettings]
    obtain ⟨w',hrun,htables,hend⟩ := h.prune p hclock hp
    refine ⟨w',hrun,htables,fun hthrough => ?_⟩
    obtain ⟨hok,hfull,hsize⟩ := of_decide_eq_true hthrough
    exact hend hok hfull (hbatch ▸ hsize)
  | @script _ args host fuel r hkeep hmtKeep hp =>
    have hcap : args.keep.toNat = decisionsCap T s := by rw [hkeep, Int.toNat_natCast, h.caps.1]
    have hmtCap : args.mtKeep.toNat = pushesCap T s := by rw [hmtKeep, Int.toNat_natCast, h.caps.2]
    rw [← hcap, ← hmtCap] at h ⊢
    obtain ⟨w',hrun,htables,hend⟩ := h.script p hp
    refine ⟨w',hrun,htables,fun hthrough => ?_⟩
    obtain ⟨hr,hsize⟩ := of_decide_eq_true hthrough
    exact hend hr hsize

theorem Passes.progress {T : CharTable} {s u : Tables} (h : Passes T s u) :
    ∃ w : Sweepers Unit, Progress (decisionsCap T s) (pushesCap T s) s w ∧ w.tables = u := by
  induction h with
  | refl => exact ⟨.start s,.start s,rfl⟩
  | tail _ hp ih =>
    obtain ⟨w,hw,rfl⟩ := ih
    obtain ⟨w',hrun,htables,-⟩ := hw.pass () hp
    exact ⟨w',hw.run hrun,htables⟩

/-- Sweeps and script runs that are cut short change nothing about the end: the first one that is through, whichever it is,
leaves the rows that nothing puts beyond the caps, and the rest of the database as it was. -/
theorem passes_agree (T : CharTable) {s u t : Tables} (h : Passes T s u) (hlast : Pass T u true t) :
    Settled (decisionsCap T s) (pushesCap T s) s t ∧ t.db = { s.db with decisions := t.db.decisions } := by
  obtain ⟨w,hw,rfl⟩ := h.progress
  obtain ⟨w',hrun,rfl,hend⟩ := hw.pass () hlast
  exact ⟨hend rfl,(hw.run hrun).rest⟩

/-! ## A script run of one batch, and a sweep -/

def interruptedHost : DrainTombstones.Host where
  confirmed := true
  world := fun k => { interrupted := 2 ≤ k }

def afterScript : Tables := (deleteDecisions 2 1 exampleTables).2

def afterSweep : Tables := (deleteDecisions 2 5000 afterScript).2

theorem script_example : DrainTombstones.main { keep := 1, batch := 1 } interruptedHost 5 exampleTables =
    some (.drained .interrupted .empty,afterScript) := rfl

theorem sweep_example : prune .ascii stillWorld 5 afterScript none none = some (⟨"ok",1,0,some false,none⟩,afterSweep) := by
  with_unfolding_all rfl

theorem passes_agree_example :
    Settled (decisionsCap .ascii exampleTables) (pushesCap .ascii exampleTables) exampleTables afterSweep := by
  have hscript : Pass .ascii exampleTables _ afterScript := .script (by decide) (by decide) script_example
  have hsweep : Pass .ascii afterScript true afterSweep := .sweep (fun _ _ _ => le_rfl) sweep_example
  exact (passes_agree .ascii ((Passes.refl _).tail hscript) hsweep).1

end Protek.Retention
