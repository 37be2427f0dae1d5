import Protek.Diff.Convergence
import Protek.Targets.Provenance

/-! # Where bans go

Once no decision is written any more and the gates answer alike, the cycles of one process carry
the values that pass them to a target that performs what it is told: from then on its entries with
the marker are these values, whatever pulls, lists and reads lie between.
-/
namespace Protek.Targets.Delivery
open Foundation Foundation.OrderedDict Foundation.PyText Foundation.Clock Protek.Store Protek.Mirror Protek.Policy Protek.Diff
open Protek.Targets.Provenance

/-- The gates of `_desired_from_db`: enough sources, no whitelist rule, and an approval where one is asked for. -/
def passes (U : CaseMap) (T : CharTable) (db : Db) (now : Instant) (value : String) : Bool :=
  qualifies T db now value && (whitelisted U db now value).isNone && (!approvalRequired db.settings || approved db value)

/-- The list of a cycle over these active rows, where `P` says what passes. -/
def listFor (P : String → Bool) (rows : List DecisionRow) : List DesiredRow :=
  ((firstKeys (rows.map (fun r => (r.value,r.scope)))).filter (fun k => P k.1)).map (groupRow rows)

section
variable {U : CaseMap} {T : CharTable} {db : Db} {now : Instant} {P : String → Bool} {rows : List DecisionRow}

theorem groupRow_filter {Q : String → Bool} {k : String × String} (hk : Q k.1 = true) :
    groupRow (rows.filter (fun r => Q r.value)) k = groupRow rows k := by
  have hgroup : (rows.filter (fun r => Q r.value)).filter (fun r => (r.value,r.scope) = k) = rows.filter (fun r => (r.value,r.scope) = k) := by
    rw [List.filter_filter]
    refine List.filter_congr (fun r _ => ?_)
    by_cases h : (r.value,r.scope) = k
    · rw [decide_eq_true h, Bool.true_and, ← hk, ← h]
    · rw [decide_eq_false h, Bool.false_and]
  unfold groupRow
  rw [hgroup]

theorem selectRows_eq : selectRows T db now = listFor (fun v => qualifies T db now v) db.activeRows := by
  have hkeys : (db.activeRows.filter (fun r => qualifies T db now r.value)).map (fun r => (r.value,r.scope)) =
      (db.activeRows.map (fun r => (r.value,r.scope))).filter (fun k => qualifies T db now k.1) := by
    rw [List.filter_map]
    rfl
  unfold selectRows listFor
  dsimp only
  rw [hkeys, firstKeys_filter]
  exact List.map_congr_left (fun k hk => groupRow_filter (List.mem_filter.mp hk).2)

theorem desiredFromDb_eq : (desiredFromDb U T db now).1 = listFor (passes U T db now) db.activeRows := by
  have hfst : (desiredFromDb U T db now).1 = (selectRows T db now).filter (fun d =>
      (whitelisted U db now d.value).isNone && (!approvalRequired db.settings || approved db d.value)) := by
    unfold desiredFromDb
    by_cases hnil : selectRows T db now = []
    · simp only [hnil, if_true, List.filter_nil]
    · simp only [hnil, if_false]
      cases approvalRequired db.settings with
      | false => simp
      | true => simp [List.filter_filter, Bool.and_comm]
  rw [hfst, selectRows_eq, listFor, listFor, List.filter_map, List.filter_filter]
  refine congrArg _ (List.filter_congr (fun k _ => ?_))
  simp only [passes, Function.comp_apply, groupRow]
  rw [Bool.and_comm, Bool.and_assoc]

theorem listFor_congr {Q : String → Bool} (h : ∀ r ∈ rows, P r.value = Q r.value) : listFor P rows = listFor Q rows := by
  refine congrArg _ (List.filter_congr (fun k hk => ?_))
  obtain ⟨r,hr,rfl⟩ := List.mem_map.mp (mem_firstKeys.mp hk)
  exact h r hr

end

/-! ## A calm run -/

section
variable {ε κ ι τ : Type*} [DecidableEq ε] [DecidableEq κ] [DecidableEq ι] [DecidableEq τ]

/-- From here on no decision is written, the gates answer as `P` does, and the process `i` alone pushes to the target, which has no
filters, is read without failure and performs what it is told; and `i` pushes time and again. -/
structure Calm (U : CaseMap) (T : CharTable) (compile : Compile) (i : ι) (x : τ) (P : String → Bool) (s : ℕ → World ε κ ι τ)
    (e : ℕ → Event ε κ ι τ) : Prop where
  step : ∀ n, Step U T compile (s n) (e n) (s (n + 1))
  decisions : ∀ n, (s (n + 1)).db.decisions = (s n).db.decisions
  gates : ∀ n now, e n = .list i now → ∀ r ∈ (s n).db.activeRows, passes U T (s n).db now r.value = P r.value
  alone : ∀ n j cap, e n = .push j x cap → j = i
  untouched : ∀ n, e n ≠ .outside x
  reads : ∀ n f reputation ok, e n = .read i x f reputation ok → f = {} ∧ ok = true
  performs : ∀ n cap diff, e n = .push i x cap → (s n).diffs (i,x) = some diff →
    1 ≤ cap ∧ Performs ((s n).targets x) (some ⟨"",diff.toAdd.take cap,diff.toRemove.take cap⟩) ((s (n + 1)).targets x)
  often : ∀ n, ∃ m, n ≤ m ∧ ∃ cap, e m = .push i x cap

/-- What the process has listed and compared is the list of the rows, and the target is as it was when it was read. -/
structure Current (U : CaseMap) (i : ι) (x : τ) (l : List DesiredRow) (w : World ε κ ι τ) : Prop where
  desired : ∀ l', w.desired i = some l' → l' = l
  diffs : ∀ diff, w.diffs (i,x) = some diff → diff = reconcile U (l.map decisionOf) (w.targets x)
  handles : HandlesDistinct (w.targets x)

variable {U : CaseMap} {T : CharTable} {compile : Compile} {i : ι} {x : τ} {P : String → Bool} {s : ℕ → World ε κ ι τ}
  {e : ℕ → Event ε κ ι τ}

theorem Calm.rows (h : Calm U T compile i x P s e) (n : ℕ) : (s n).db.activeRows = (s 0).db.activeRows := by
  induction n with
  | zero => rfl
  | succ n ih =>
    rw [← ih]
    unfold Db.activeRows
    rw [h.decisions n]

theorem Performs.cycle {desired : List Decision} {cap : ℕ} {a b : List Entry} {name : String}
    (h : Performs a (some ⟨name,(reconcile U desired a).toAdd.take cap,(reconcile U desired a).toRemove.take cap⟩) b) :
    Cycle U desired cap (fun _ => false) a b := by
  obtain ⟨added,hadded,hhandles,hperm⟩ := h
  have hall : acceptedAdds U desired cap (fun _ => false) a = (reconcile U desired a).toAdd.take cap :=
    List.filter_eq_self.mpr (fun _ _ => rfl)
  exact ⟨added,by rw [hadded, hall],hhandles,hperm⟩

/-- A push is a cycle on the list, and no other step touches the target. -/
theorem Current.step {l : List DesiredRow} {w v : World ε κ ι τ} {ev : Event ε κ ι τ} (hc : Current U i x l w)
    (hs : Step U T compile w ev v) (hlist : ∀ now, ev = .list i now → (desiredFromDb U T w.db now).1 = l)
    (halone : ∀ j cap, ev = .push j x cap → j = i) (huntouched : ev ≠ .outside x)
    (hreads : ∀ f reputation ok, ev = .read i x f reputation ok → f = {} ∧ ok = true)
    (hperforms : ∀ cap diff, ev = .push i x cap → w.diffs (i,x) = some diff →
      1 ≤ cap ∧ Performs (w.targets x) (some ⟨"",diff.toAdd.take cap,diff.toRemove.take cap⟩) (v.targets x)) :
    Current U i x l v ∧ ((∃ cap, 1 ≤ cap ∧ Cycle U (l.map decisionOf) cap (fun _ => false) (w.targets x) (v.targets x)) ∨
      ((∀ cap, ev ≠ .push i x cap) ∧ v.targets x = w.targets x)) := by
  cases hs with
  | lapiAdd _ => exact ⟨⟨hc.desired,hc.diffs,hc.handles⟩,Or.inr ⟨nofun,rfl⟩⟩
  | lapiRemove => exact ⟨⟨hc.desired,hc.diffs,hc.handles⟩,Or.inr ⟨nofun,rfl⟩⟩
  | full _ _ _ => exact ⟨⟨hc.desired,hc.diffs,hc.handles⟩,Or.inr ⟨nofun,rfl⟩⟩
  | delta _ => exact ⟨⟨hc.desired,hc.diffs,hc.handles⟩,Or.inr ⟨nofun,rfl⟩⟩
  | lost => exact ⟨⟨hc.desired,hc.diffs,hc.handles⟩,Or.inr ⟨nofun,rfl⟩⟩
  | statement => exact ⟨⟨hc.desired,hc.diffs,hc.handles⟩,Or.inr ⟨nofun,rfl⟩⟩
  | write _ _ => exact ⟨⟨hc.desired,hc.diffs,hc.handles⟩,Or.inr ⟨nofun,rfl⟩⟩
  | @list j now =>
    refine ⟨⟨fun l' hl' => ?_,hc.diffs,hc.handles⟩,Or.inr ⟨nofun,rfl⟩⟩
    dsimp only at hl'
    by_cases hj : i = j
    · subst hj
      rw [Function.update_self] at hl'
      rw [← Option.some_inj.mp hl', hlist now rfl]
    · rw [Function.update_of_ne hj] at hl'
      exact hc.desired l' hl'
  | @read j y f reputation ok l' hl' =>
    refine ⟨⟨hc.desired,fun diff hdiff => ?_,hc.handles⟩,Or.inr ⟨nofun,rfl⟩⟩
    dsimp only at hdiff ⊢
    by_cases hy : (i,x) = (j,y)
    · obtain ⟨rfl,rfl⟩ := Prod.mk.inj hy
      obtain ⟨rfl,rfl⟩ := hreads f reputation ok rfl
      rw [Function.update_self] at hdiff
      rw [← Option.some_inj.mp hdiff, hc.desired l' hl']
      rfl
    · rw [Function.update_of_ne hy] at hdiff
      exact hc.diffs diff hdiff
  | @push j y cap diff added t removed hdiff hadd hremove hperm =>
    by_cases hy : x = y
    · subst hy
      obtain rfl := halone j cap rfl
      obtain ⟨hcap,hperformed⟩ := hperforms cap diff rfl hdiff
      rw [hc.diffs diff hdiff] at hperformed
      have hcycle := Performs.cycle hperformed
      refine ⟨⟨hc.desired,fun diff' hdiff' => ?_,hcycle.handlesDistinct⟩,Or.inl ⟨cap,hcap,hcycle⟩⟩
      dsimp only at hdiff'
      rw [Function.update_self] at hdiff'
      cases hdiff'
    · have hsame : Function.update w.targets y t x = w.targets x := Function.update_of_ne hy _ _
      refine ⟨⟨hc.desired,fun diff' hdiff' => ?_,?_⟩,Or.inr ⟨fun cap' heq => ?_,hsame⟩⟩
      · dsimp only at hdiff' ⊢
        rw [Function.update_of_ne (fun heq => hy (Prod.mk.inj heq).2)] at hdiff'
        rw [hsame]
        exact hc.diffs diff' hdiff'
      · dsimp only
        rw [hsame]
        exact hc.handles
      · cases heq
        exact hy rfl
  | @outside y t _ =>
    have hy : x ≠ y := fun hxy => huntouched (hxy ▸ rfl)
    have hsame : Function.update w.targets y t x = w.targets x := Function.update_of_ne hy _ _
    refine ⟨⟨hc.desired,fun diff hdiff => ?_,?_⟩,Or.inr ⟨nofun,hsame⟩⟩
    · dsimp only
      rw [hsame]
      exact hc.diffs diff hdiff
    · dsimp only
      rw [hsame]
      exact hc.handles

theorem Calm.current (h : Calm U T compile i x P s e) (h0 : Current U i x (listFor P (s 0).db.activeRows) (s 0)) (n : ℕ) :
    Current U i x (listFor P (s 0).db.activeRows) (s n) ∧
    ((∃ cap, 1 ≤ cap ∧ Cycle U ((listFor P (s 0).db.activeRows).map decisionOf) cap (fun _ => false) ((s n).targets x)
        ((s (n + 1)).targets x)) ∨
      ((∀ cap, e n ≠ .push i x cap) ∧ (s (n + 1)).targets x = (s n).targets x)) := by
  have hstep : ∀ m, Current U i x (listFor P (s 0).db.activeRows) (s m) → _ := fun m hm =>
    hm.step (h.step m) (fun now hlist => by rw [desiredFromDb_eq, listFor_congr (h.gates m now hlist), h.rows m]) (h.alone m)
      (h.untouched m) (h.reads m) (h.performs m)
  have hcurrent : ∀ m, Current U i x (listFor P (s 0).db.activeRows) (s m) := by
    intro m
    induction m with
    | zero => exact h0
    | succ m ih => exact (hstep m ih).1
  exact ⟨hcurrent n,(hstep n (hcurrent n)).2⟩

/-- Nothing is left to add or to remove. -/
def Done (U : CaseMap) (desired : List Decision) (a : List Entry) : Prop := uncovered U desired a = [] ∧ stale U desired a = []

theorem Done.cycle {desired : List Decision} {cap : ℕ} {a b : List Entry} (h : Cycle U desired cap (fun _ => false) a b)
    (ha : HandlesDistinct a) (hdone : Done U desired a) : Done U desired b := by
  have hu := h.uncovered_eq ha
  have hst := h.stale_perm
  rw [hdone.1] at hu
  rw [hdone.2] at hst
  exact ⟨hu,hst.eq_nil⟩

theorem pendingOps_cycle_le {desired : List Decision} {cap : ℕ} {a b : List Entry} (h : Cycle U desired cap (fun _ => false) a b)
    (hcap : 1 ≤ cap) (ha : HandlesDistinct a) : pendingOps U desired b ≤ pendingOps U desired a := by
  by_cases hdone : Done U desired a
  · obtain ⟨hu,hst⟩ := Done.cycle h ha hdone
    rw [pendingOps, hu, hst]
    exact Nat.zero_le _
  · exact (h.pendingOps_lt hcap ha hdone).le

/-- The pushes of a calm run come to an end of their work, and it stays done. -/
theorem Calm.done (h : Calm U T compile i x P s e) (h0 : Current U i x (listFor P (s 0).db.activeRows) (s 0)) :
    ∃ N, ∀ n, N ≤ n → Done U ((listFor P (s 0).db.activeRows).map decisionOf) ((s n).targets x) := by
  have hstay : ∀ n, Done U ((listFor P (s 0).db.activeRows).map decisionOf) ((s n).targets x) →
      Done U ((listFor P (s 0).db.activeRows).map decisionOf) ((s (n + 1)).targets x) := by
    intro n hdone
    obtain ⟨hcurrent,⟨cap,-,hcycle⟩ | ⟨-,hsame⟩⟩ := h.current h0 n
    · exact Done.cycle hcycle hcurrent.handles hdone
    · rwa [hsame]
  obtain ⟨N,hN⟩ := eventually_of_recurrent (P := fun w : World ε κ ι τ => Done U ((listFor P (s 0).db.activeRows).map decisionOf) (w.targets x))
    (fun w => pendingOps U ((listFor P (s 0).db.activeRows).map decisionOf) (w.targets x)) s (fun n => by
      obtain ⟨hcurrent,⟨cap,hcap,hcycle⟩ | ⟨-,hsame⟩⟩ := h.current h0 n
      · exact pendingOps_cycle_le hcycle hcap hcurrent.handles
      · rw [hsame]) (fun n => by
      obtain ⟨m,hm,cap,hpush⟩ := h.often n
      refine ⟨m,hm,?_⟩
      obtain ⟨hcurrent,⟨cap',hcap,hcycle⟩ | ⟨hno,-⟩⟩ := h.current h0 m
      · by_cases hdone : Done U ((listFor P (s 0).db.activeRows).map decisionOf) ((s m).targets x)
        · exact Or.inl hdone
        · exact Or.inr (hcycle.pendingOps_lt hcap hcurrent.handles hdone)
      · exact absurd hpush (hno cap))
  exact ⟨N,stable_forever (P := fun w : World ε κ ι τ => Done U ((listFor P (s 0).db.activeRows).map decisionOf) (w.targets x)) hstay hN⟩

theorem Calm.foreign (h : Calm U T compile i x P s e) (h0 : Current U i x (listFor P (s 0).db.activeRows) (s 0)) (n : ℕ) :
    (foreign ((s n).targets x)).Perm (foreign ((s 0).targets x)) := by
  induction n with
  | zero => exact List.Perm.refl _
  | succ n ih =>
    obtain ⟨hcurrent,⟨cap,-,hcycle⟩ | ⟨-,hsame⟩⟩ := h.current h0 n
    · exact (hcycle.foreign_perm hcurrent.handles).trans ih
    · rwa [hsame]

end

/-- The ban of the example has been pulled. -/
def bannedDb : Db := exec Db.empty (.upsertDecision "local" ban "1970-01-01T00:00:00+00:00")

def held (desired : Option (List DesiredRow)) (diff : Option ReconcileDiff) (entries : List Entry) : World Unit Unit Unit Unit :=
  ⟨bannedDb,fun _ => Feed.empty,fun _ => Pull.idle,fun _ => desired,fun _ => diff,fun _ => entries⟩

end Protek.Targets.Delivery
