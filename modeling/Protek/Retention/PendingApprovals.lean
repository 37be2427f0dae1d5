import Protek.Policy.ApprovalGate
import Protek.Retention.Sweep

/-! # Tombstones that an approval waits for

A cycle queues a decision under its `lapi_id`, and the sweep takes the numbers of the
pending rows for ids of the decisions table. A queued decision is safe where the two agree.
-/
namespace Protek.Retention
open Foundation Foundation.PyText Foundation.BatchedDrain Foundation.IpAddress Foundation.Clock Protek.Store Protek.Mirror Protek.Policy

inductive ApprovalOp
  /-- A writer, a pull or a cycle. -/
  | run (op : Op)
  | approvalsDecide (qid : ℕ) (decision : Option String)
  /-- A sweep, with the readings of the clock and the statements of its drains that fail. -/
  | sweep (maxSeconds batch : Option ℤ) (world : ℕ → Moment ℚ) (fuel : ℕ)
  /-- Whatever else writes the database, but no row of the queue. -/
  | others

structure ApprovalEvent where
  now : Instant
  op : ApprovalOp

/-- The operations that delete tombstones. -/
def ApprovalOp.Prunes : ApprovalOp → Prop
  | .run (.prune _) => True
  | .sweep _ _ _ _ => True
  | _ => False

section
variable (U : CaseMap) (T : CharTable)

def ApprovalStep (s : Tables) (e : ApprovalEvent) (s' : Tables) : Prop :=
  match e.op with
  | .run op => QueueStep U T s.db ⟨e.now,.run op⟩ s'.db
  | .approvalsDecide qid decision => QueueStep U T s.db ⟨e.now,.approvalsDecide qid decision⟩ s'.db
  | .sweep maxSeconds batch world fuel =>
    Monotone (fun i => (world i).now) ∧ ∃ r, prune T world fuel s maxSeconds batch = some (r,s')
  | .others => s'.db.approvalQueue = s.db.approvalQueue ∧ s'.db.approvalQueueSeq = s.db.approvalQueueSeq

/-- The decisions that a cycle in semi-auto mode queues have equal numbers at home and in the decisions table. -/
def NumberedAlike (t : Transition Tables ApprovalEvent) : Prop :=
  t.label.op = .run .cycle → approvalRequired t.before.db.settings = true →
    ∀ d ∈ toQueue U T t.before.db t.label.now, ∀ r ∈ t.before.db.activeRows,
      r.value = d.value → r.scope = d.scope → r.lapiId = d.lapiId → (r.id : ℤ) = r.lapiId

end

/-- A cycle put the row into the queue for the decision. -/
structure QueuedFor (t : Transition Tables ApprovalEvent) (q : QueueRow) (r : DecisionRow) : Prop where
  cycle : t.label.op = .run .cycle
  queued : q ∈ t.after.db.approvalQueue
  fresh : t.before.db.approvalQueueSeq < q.id
  active : r ∈ t.before.db.activeRows
  value : r.value = q.ip
  scope : r.scope = q.scope
  decision : q.decisionId = some r.lapiId

/-- The queue still has the row of the id, and nobody has decided on it. -/
def Pending (s : Tables) (qid : ℕ) : Prop := ∃ q ∈ s.db.approvalQueue, q.id = qid ∧ q.status = .pending

/-! ## The queue along a run -/

@[simp] theorem markRow_decisionId (qid : ℕ) (status : QueueStatus) (q : QueueRow) :
    (markRow qid status q).decisionId = q.decisionId := by
  unfold markRow
  split <;> rfl

/-- Each old row of the queue has kept its decision and has not become pending again. -/
structure Heirs (db db' : Db) : Prop where
  seq : db.approvalQueueSeq ≤ db'.approvalQueueSeq
  heir : ∀ q' ∈ db'.approvalQueue, q'.id ≤ db.approvalQueueSeq → ∃ q ∈ db.approvalQueue, q.id = q'.id ∧
    q.decisionId = q'.decisionId ∧ (q'.status = .pending → q.status = .pending)

section
variable {U : CaseMap} {T : CharTable} {s s' : Tables} {e : ApprovalEvent} {db db' : Db}

theorem Heirs.of_same (hq : db'.approvalQueue = db.approvalQueue) (hs : db'.approvalQueueSeq = db.approvalQueueSeq) :
    Heirs db db' :=
  ⟨hs.ge,fun q hmem _ => ⟨q,hq ▸ hmem,rfl,rfl,id⟩⟩

theorem Heirs.of_appended {fresh : List QueueRow} (h : Appended fresh db db') : Heirs db db' := by
  refine ⟨by rw [h.seq]; exact Nat.le_add_right _ _,fun q hmem hle => ?_⟩
  rw [h.queue] at hmem
  rcases List.mem_append.mp hmem with hold | hnew
  · exact ⟨q,hold,rfl,rfl,id⟩
  · have hid : q.id ∈ List.range' (db.approvalQueueSeq + 1) fresh.length := h.ids ▸ List.mem_map_of_mem hnew
    rw [List.mem_range'_1] at hid
    omega

theorem heirs_of_queueStep {e : QueueEvent} (h : QueueStep U T db e db') : Heirs db db' := by
  cases hd : e.op.decided with
  | none =>
    obtain ⟨fresh,happ,-⟩ := h.appended hd
    exact .of_appended happ
  | some p =>
    obtain ⟨qid,status⟩ := p
    obtain ⟨hq,hs⟩ := h.queue_of_decided hd
    refine ⟨hs.ge,fun q' hmem _ => ?_⟩
    rw [hq] at hmem
    obtain ⟨q,hold,rfl⟩ := List.mem_map.mp hmem
    refine ⟨q,hold,(markRow_id _ _ q).symm,(markRow_decisionId _ _ q).symm,fun hpending => ?_⟩
    by_cases hid : q.id = qid
    · -- whoever decides does not leave the row pending
      rw [markRow, if_pos hid] at hpending
      rcases QueueOp.decided_cases hd with rfl | rfl <;> cases hpending
    · rwa [markRow, if_neg hid] at hpending

/-- A step goes through the queue as one of the approvals' steps, or leaves the queue alone. -/
theorem ApprovalStep.queue_cases (h : ApprovalStep U T s e s') :
    (∃ op, QueueStep U T s.db ⟨e.now,op⟩ s'.db) ∨
      (s'.db.approvalQueue = s.db.approvalQueue ∧ s'.db.approvalQueueSeq = s.db.approvalQueueSeq) := by
  rcases e with ⟨now,op⟩
  cases op with
  | run op => exact Or.inl ⟨.run op,h⟩
  | approvalsDecide qid decision => exact Or.inl ⟨.approvalsDecide qid decision,h⟩
  | sweep maxSeconds batch world fuel =>
    obtain ⟨hclock,r,hprune⟩ := h
    have hrest := (prune_spec hclock hprune).1
    exact Or.inr ⟨by rw [hrest],by rw [hrest]⟩
  | others => exact Or.inr h

theorem ApprovalStep.heirs (h : ApprovalStep U T s e s') : Heirs s.db s'.db := by
  rcases h.queue_cases with ⟨op,hq⟩ | ⟨hq,hs⟩
  · exact heirs_of_queueStep hq
  · exact .of_same hq hs

theorem ApprovalStep.queueIds (h : ApprovalStep U T s e s') (hi : QueueIds s.db) : QueueIds s'.db := by
  rcases h.queue_cases with ⟨op,hq⟩ | ⟨hq,hs⟩
  · exact hq.queueIds hi
  · exact ⟨hq ▸ hi.nodup,by rw [hq, hs]; exact hi.le_seq⟩

/-- The pending rows of an id that was given out name one decision. -/
def Names (s : Tables) (qid : ℕ) (i : ℤ) : Prop :=
  qid ≤ s.db.approvalQueueSeq ∧ ∀ q ∈ s.db.approvalQueue, q.id = qid → q.status = .pending → q.decisionId = some i

theorem ApprovalStep.names {qid : ℕ} {i : ℤ} (h : ApprovalStep U T s e s') (hn : Names s qid i) : Names s' qid i := by
  obtain ⟨hle,hnames⟩ := hn
  refine ⟨hle.trans h.heirs.seq,fun q' hq' hid hpending => ?_⟩
  obtain ⟨q,hq,hqid,hdec,hwas⟩ := h.heirs.heir q' hq' (hid ▸ hle)
  exact hdec ▸ hnames q hq (hqid.trans hid) (hwas hpending)

theorem names_of_trace {ts : List (Transition Tables ApprovalEvent)} {qid : ℕ} {i : ℤ}
    (h : Trace (ApprovalStep U T) s ts s') (hn : Names s qid i) : Names s' qid i :=
  (h.always (I := fun s => Names s qid i) hn (fun _ hs hn => hs.names hn)).1

theorem queueIds_of_trace {ts : List (Transition Tables ApprovalEvent)} (h : Trace (ApprovalStep U T) s ts s')
    (hi : QueueIds s.db) : QueueIds s'.db :=
  (h.always (I := fun s => QueueIds s.db) hi (fun _ hs hi => hs.queueIds hi)).1

/-! ## What a cycle queues -/

theorem exists_of_mem_queueRows {now : Instant} {seq : ℕ} {ds : List DesiredRow} {q : QueueRow} (h : q ∈ queueRows now seq ds) :
    ∃ d ∈ ds, q.ip = d.value ∧ q.scope = d.scope ∧ q.decisionId = some d.lapiId := by
  induction ds generalizing seq with
  | nil => cases h
  | cons d rest ih =>
    rcases List.mem_cons.mp h with rfl | h
    · exact ⟨d,List.mem_cons_self,rfl,rfl,rfl⟩
    · obtain ⟨d',hd',heq⟩ := ih h
      exact ⟨d',List.mem_cons_of_mem _ hd',heq⟩

/-- The number of a group is that of one of its rows. -/
theorem exists_of_mem_selectRows {now : Instant} {d : DesiredRow} (h : d ∈ selectRows T db now) :
    ∃ r ∈ db.activeRows, r.value = d.value ∧ r.scope = d.scope ∧ r.lapiId = d.lapiId := by
  obtain ⟨k,hk,rfl⟩ := List.mem_map.mp h
  obtain ⟨r₀,hr₀,hkey⟩ := List.mem_map.mp (OrderedDict.mem_firstKeys.mp hk)
  cases hmin : (((db.activeRows.filter (fun r => qualifies T db now r.value)).filter (fun r => (r.value,r.scope) = k)).map
      DecisionRow.lapiId).min? with
  | none =>
    have hnil := List.min?_eq_none_iff.mp hmin
    have hmem : r₀ ∈ (db.activeRows.filter (fun r => qualifies T db now r.value)).filter (fun r => (r.value,r.scope) = k) :=
      List.mem_filter.mpr ⟨hr₀,decide_eq_true hkey⟩
    rw [List.map_eq_nil_iff.mp hnil] at hmem
    cases hmem
  | some i =>
    obtain ⟨r,hr,hri⟩ := List.mem_map.mp (List.min?_mem hmin)
    obtain ⟨hact,hrk⟩ := List.mem_filter.mp hr
    have hrk : (r.value,r.scope) = k := of_decide_eq_true hrk
    refine ⟨r,(List.mem_filter.mp hact).1,congrArg Prod.fst hrk,congrArg Prod.snd hrk,?_⟩
    rw [groupRow, hri]
    dsimp only
    rw [hmin, Option.getD_some]

/-- The new rows of a cycle are those of the decisions that it queues, in semi-auto mode. -/
theorem cycle_queued {t : Transition Tables ApprovalEvent} {q : QueueRow} (h : ApprovalStep U T t.before t.label t.after)
    (hi : QueueIds t.before.db) (hcycle : t.label.op = .run .cycle) (hq : q ∈ t.after.db.approvalQueue)
    (hfresh : t.before.db.approvalQueueSeq < q.id) : approvalRequired t.before.db.settings = true ∧
      ∃ d ∈ toQueue U T t.before.db t.label.now, q.ip = d.value ∧ q.scope = d.scope ∧ q.decisionId = some d.lapiId := by
  obtain ⟨before,⟨now,op⟩,after⟩ := t
  dsimp only at hcycle hq hfresh hi h ⊢
  subst hcycle
  change after.db = (desiredFromDb U T before.db now).2 at h
  have happ := @appended_cycle U T before.db now
  rw [← h] at happ
  rw [happ.queue] at hq
  rcases List.mem_append.mp hq with hold | hnew
  · exact absurd (hi.le_seq q hold) (Nat.not_le.mpr hfresh)
  · split at hnew
    · next hmode => exact ⟨hmode,exists_of_mem_queueRows hnew⟩
    · cases hnew

/-- Every row that a cycle queues is queued for a decision. -/
theorem exists_queuedFor {t : Transition Tables ApprovalEvent} {q : QueueRow} (h : ApprovalStep U T t.before t.label t.after)
    (hi : QueueIds t.before.db) (hcycle : t.label.op = .run .cycle) (hq : q ∈ t.after.db.approvalQueue)
    (hfresh : t.before.db.approvalQueueSeq < q.id) : ∃ r, QueuedFor t q r := by
  obtain ⟨-,d,hd,hip,hscope,hdec⟩ := cycle_queued h hi hcycle hq hfresh
  obtain ⟨r,hr,hv,hs,hl⟩ := exists_of_mem_selectRows (mem_toQueue.mp hd).1
  exact ⟨r,hcycle,hq,hfresh,hr,hv.trans hip.symm,hs.trans hscope.symm,by rw [hdec, hl]⟩

/-- Where the numbers agree, the row names the decision's id after the cycle. -/
theorem QueuedFor.names {t : Transition Tables ApprovalEvent} {q : QueueRow} {r : DecisionRow} (hqf : QueuedFor t q r)
    (h : ApprovalStep U T t.before t.label t.after) (hi : QueueIds t.before.db) (halike : NumberedAlike U T t) :
    Names t.after q.id r.id := by
  have hi' := h.queueIds hi
  refine ⟨hi'.le_seq q hqf.queued,fun q' hq' hid _ => ?_⟩
  rw [List.inj_on_of_nodup_map hi'.nodup hq' hqf.queued hid]
  obtain ⟨hmode,d,hd,hip,hscope,hdec⟩ := cycle_queued h hi hqf.cycle hqf.queued hqf.fresh
  have hlapi : r.lapiId = d.lapiId := Option.some.inj (hqf.decision.symm.trans hdec)
  rw [hqf.decision, halike hqf.cycle hmode d hd r hqf.active (hqf.value.trans hip) (hqf.scope.trans hscope) hlapi]

/-! ## What a sweep keeps -/

theorem Names.mem_pendingDecisionIds {qid : ℕ} {i : ℤ} (hn : Names s qid i) (hp : Pending s qid) :
    i ∈ pendingDecisionIds s.db := by
  obtain ⟨q,hq,hid,hpending⟩ := hp
  exact List.mem_filterMap.mpr ⟨q,List.mem_filter.mpr ⟨hq,decide_eq_true hpending⟩,hn.2 q hq hid hpending⟩

theorem mem_deleteBatch_of_pinned {cutoff size : ℕ} {r : DecisionRow} (hr : r ∈ db.decisions.rows)
    (hpin : (r.id : ℤ) ∈ pendingDecisionIds db) : r ∈ (deleteBatch db cutoff size).decisions.rows := by
  refine KeyedTable.mem_remove.mpr ⟨hr,decide_eq_false (fun ⟨_,hmem⟩ => ?_)⟩
  obtain ⟨q,-,hq,hid⟩ := @exists_of_mem_oldestIds _ DecisionRow.id (Deletable db cutoff) _ _ _ hmem
  simp only [Deletable, decide_eq_true_eq] at hq
  exact hq.2.2 (hid ▸ hpin)

theorem mem_batches_of_pinned (cutoff : ℕ) (size : Db → ℕ) (rounds : ℕ) {r : DecisionRow} (hr : r ∈ db.decisions.rows)
    (hpin : (r.id : ℤ) ∈ pendingDecisionIds db) : r ∈ ((fun db => deleteBatch db cutoff (size db))^[rounds] db).decisions.rows := by
  induction rounds generalizing db with
  | zero => exact hr
  | succ rounds ih => exact ih (mem_deleteBatch_of_pinned hr hpin) hpin

theorem mem_prune_of_pinned {rounds : ℕ} {r : DecisionRow} (hr : r ∈ db.decisions.rows)
    (hpin : (r.id : ℤ) ∈ pendingDecisionIds db) : r ∈ (Policy.prune T db rounds).decisions.rows := by
  unfold Policy.prune
  split
  · exact hr
  · split
    · exact hr
    · next cutoff _ => exact mem_batches_of_pinned cutoff _ rounds hr hpin

/-- A decision whose id a pending row names survives every sweep. -/
theorem ApprovalStep.mem_of_pinned (h : ApprovalStep U T s e s') (hprunes : e.op.Prunes) {r : DecisionRow}
    (hr : r ∈ s.db.decisions.rows) (hpin : (r.id : ℤ) ∈ pendingDecisionIds s.db) : r ∈ s'.db.decisions.rows := by
  rcases e with ⟨now,op⟩
  cases op with
  | run op =>
    cases op with
    | prune rounds =>
      change s'.db = Policy.prune T s.db rounds at h
      rw [h]
      exact mem_prune_of_pinned hr hpin
    | _ => cases hprunes
  | sweep maxSeconds batch world fuel =>
    obtain ⟨hclock,result,hprune⟩ := h
    exact (prune_spec hclock hprune).2.1 r hr (Or.inr (Or.inr hpin))
  | approvalsDecide qid decision => cases hprunes
  | others => cases hprunes

end

/-- Along a run whose cycles queue only decisions that are numbered alike, no sweep deletes the decision that a
pending row was queued for. -/
theorem pending_decision_survives (U : CaseMap) (T : CharTable) {init s : Tables} {ts : List (Transition Tables ApprovalEvent)}
    (h : Trace (ApprovalStep U T) init ts s) (hids : QueueIds init.db) (halike : ∀ t ∈ ts, NumberedAlike U T t) :
    ∀ pre t mid u post, ts = pre ++ t :: mid ++ u :: post → ∀ q r, QueuedFor t q r → u.label.op.Prunes →
      Pending u.before q.id → ∀ r' ∈ u.before.db.decisions.rows, r'.id = r.id → r' ∈ u.after.db.decisions.rows := by
  rintro pre t mid u post rfl q r hqf hprunes hpending r' hr' hid
  have hpre : Trace (ApprovalStep U T) init (pre ++ t :: mid) u.before := h.take
  have ht : t ∈ pre ++ t :: mid ++ u :: post := by simp
  have hnamed := hqf.names (h.mem_step t ht) (queueIds_of_trace hpre.take hids) (halike t ht)
  have hstill : Names u.before q.id r.id := names_of_trace hpre.drop hnamed
  exact (h.mem_step u (by simp)).mem_of_pinned hprunes hr' (hid ▸ hstill.mem_pendingDecisionIds hpending)

/-! ## A decision with another number at home -/

def reported (lapiId : ℤ) : LapiDecision := ⟨lapiId,"192.0.2.1","Ip","ban","ssh-bf","crowdsec","4h",none⟩

def capless : Db := (Db.empty.setSetting "settings.approval_required" "1").setSetting "retention.decisions_tombstone_cap" "0"

-- these states stay folded: to unify through them is to run the program
@[irreducible] def pulledDb (lapiId : ℤ) : Db := perform .ascii .ascii capless ⟨hour,.bootstrap "capi" [reported lapiId]⟩

@[irreducible] def queuedDb (lapiId : ℤ) : Db := perform .ascii .ascii (pulledDb lapiId) ⟨hour,.cycle⟩

@[irreducible] def retractedDb (lapiId : ℤ) : Db := perform .ascii .ascii (queuedDb lapiId) ⟨hour,.streamApply "capi" [] [reported lapiId]⟩

def DistinctIds (db : Db) : Prop := (db.decisions.rows.map DecisionRow.id).Nodup

instance (db : Db) : Decidable (DistinctIds db) := inferInstanceAs (Decidable (List.Nodup _))

/-- A decision is pulled, queued by a cycle, retracted and swept. -/
structure SweptRun (lapiId : ℤ) where
  pulled : DistinctIds (pulledDb lapiId)
  queued : DistinctIds (queuedDb lapiId)
  retracted : DistinctIds (retractedDb lapiId)
  result : PruneResult
  swept : Tables
  runs : prune .ascii stillWorld 3 ⟨retractedDb lapiId,retracted,.empty⟩ none none = some (result,swept)

theorem run_step {U : CaseMap} {T : CharTable} {db db' : Db} {h : DistinctIds db} {h' : DistinctIds db'} {now : Instant} {op : Op}
    (heq : db' = perform U T db ⟨now,op⟩) : ApprovalStep U T ⟨db,h,.empty⟩ ⟨now,.run op⟩ ⟨db',h',.empty⟩ := heq

namespace SweptRun
variable {lapiId : ℤ} (R : SweptRun lapiId)

def pull : Transition Tables ApprovalEvent :=
  ⟨⟨capless,List.nodup_nil,.empty⟩,⟨hour,.run (.bootstrap "capi" [reported lapiId])⟩,⟨pulledDb lapiId,R.pulled,.empty⟩⟩

def cycleStep : Transition Tables ApprovalEvent :=
  ⟨⟨pulledDb lapiId,R.pulled,.empty⟩,⟨hour,.run .cycle⟩,⟨queuedDb lapiId,R.queued,.empty⟩⟩

def retraction : Transition Tables ApprovalEvent :=
  ⟨⟨queuedDb lapiId,R.queued,.empty⟩,⟨hour,.run (.streamApply "capi" [] [reported lapiId])⟩,⟨retractedDb lapiId,R.retracted,.empty⟩⟩

def sweepStep : Transition Tables ApprovalEvent :=
  ⟨⟨retractedDb lapiId,R.retracted,.empty⟩,⟨hour,.sweep none none stillWorld 3⟩,R.swept⟩

theorem trace : Trace (ApprovalStep .ascii .ascii) ⟨capless,List.nodup_nil,.empty⟩
    ([R.pull] ++ R.cycleStep :: [R.retraction] ++ R.sweepStep :: []) R.swept :=
  (((Trace.nil.snoc (run_step (by rw [pulledDb]))).snoc (run_step (by rw [queuedDb]))).snoc
    (run_step (by rw [retractedDb]))).snoc ⟨fun _ _ _ => le_rfl,R.result,R.runs⟩

/-- The row of the queue, the decision it was queued for, and the tombstone that the sweep finds. -/
def QueuesIt (lapiId : ℤ) : Prop :=
  ∃ q ∈ (queuedDb lapiId).approvalQueue, ∃ r ∈ (pulledDb lapiId).activeRows, ∃ r' ∈ (retractedDb lapiId).decisions.rows,
    ((pulledDb lapiId).approvalQueueSeq < q.id ∧ r.value = q.ip ∧ r.scope = q.scope ∧ q.decisionId = some r.lapiId) ∧
    (∃ q' ∈ (retractedDb lapiId).approvalQueue, q'.id = q.id ∧ q'.status = .pending) ∧ r'.id = r.id

instance : Decidable (QueuesIt lapiId) := by
  unfold QueuesIt
  infer_instance

/-- What the law makes of the run. -/
theorem kept (h : QueuesIt lapiId)
    (hlaw : ∀ q r, QueuedFor R.cycleStep q r → Pending R.sweepStep.before q.id →
      ∀ r' ∈ R.sweepStep.before.db.decisions.rows, r'.id = r.id → r' ∈ R.sweepStep.after.db.decisions.rows) :
    ∃ r' ∈ (retractedDb lapiId).decisions.rows, r' ∈ R.swept.db.decisions.rows := by
  obtain ⟨q,hq,r,hr,r',hr',⟨hfresh,hv,hs,hd⟩,hpending,hid⟩ := h
  unfold cycleStep sweepStep at hlaw
  exact ⟨r',hr',hlaw q r ⟨rfl,hq,hfresh,hr,hv,hs,hd⟩ hpending r' hr' hid⟩

end SweptRun

theorem queueIds_capless : QueueIds capless := ⟨List.nodup_nil,by simp [capless, Db.setSetting, Db.empty]⟩

theorem distinctIds_retracted : DistinctIds (retractedDb 1) ∧ DistinctIds (retractedDb 7) := by
  decide +kernel

/-- The decision has the number 1 at home and in the table. -/
theorem pending_decision_survives_example : ∃ R : SweptRun 1, ∃ r' ∈ (retractedDb 1).decisions.rows,
    r' ∈ R.swept.db.decisions.rows := by
  have hsome : (prune .ascii stillWorld 3 ⟨retractedDb 1,distinctIds_retracted.1,.empty⟩ none none).isSome = true := by
    decide +kernel
  obtain ⟨⟨result,swept⟩,hruns⟩ := Option.isSome_iff_exists.mp hsome
  let R : SweptRun 1 := ⟨by decide +kernel,by decide +kernel,distinctIds_retracted.1,result,swept,hruns⟩
  have halike : ∀ d ∈ toQueue .ascii .ascii (pulledDb 1) hour, ∀ r ∈ (pulledDb 1).activeRows,
      r.value = d.value → r.scope = d.scope → r.lapiId = d.lapiId → (r.id : ℤ) = r.lapiId := by decide +kernel
  refine ⟨R,R.kept (by decide +kernel) (fun q r hqf => ?_)⟩
  refine pending_decision_survives .ascii .ascii R.trace queueIds_capless (fun t ht => ?_)
    [R.pull] R.cycleStep [R.retraction] R.sweepStep [] rfl q r hqf trivial
  simp only [List.cons_append, List.nil_append, List.mem_cons, List.not_mem_nil, or_false] at ht
  rcases ht with rfl | rfl | rfl | rfl
  · intro hop
    cases hop
  · exact fun _ _ => halike
  · intro hop
    cases hop
  · intro hop
    cases hop

/-- A decision that is number 7 at home and row 1 in the table is swept while its approval is pending. -/
theorem pending_decision_swept : ¬ ∀ (U : CaseMap) (T : CharTable) (init s : Tables) (ts : List (Transition Tables ApprovalEvent)),
    Trace (ApprovalStep U T) init ts s → QueueIds init.db →
    ∀ pre t mid u post, ts = pre ++ t :: mid ++ u :: post → ∀ q r, QueuedFor t q r → u.label.op.Prunes →
      Pending u.before q.id → ∀ r' ∈ u.before.db.decisions.rows, r'.id = r.id → r' ∈ u.after.db.decisions.rows := by
  intro h
  have hgone : (prune .ascii stillWorld 3 ⟨retractedDb 7,distinctIds_retracted.2,.empty⟩ none none).map
      (fun p => p.2.db.decisions.rows) = some [] := by
    decide +kernel
  obtain ⟨⟨result,swept⟩,hruns,hrows⟩ := Option.map_eq_some_iff.mp hgone
  let R : SweptRun 7 := ⟨by decide +kernel,by decide +kernel,distinctIds_retracted.2,result,swept,hruns⟩
  obtain ⟨r',-,hkept⟩ := R.kept (by decide +kernel) (fun q r hqf =>
    h .ascii .ascii _ _ _ R.trace queueIds_capless [R.pull] R.cycleStep [R.retraction] R.sweepStep [] rfl q r hqf trivial)
  have hempty : R.swept.db.decisions.rows = [] := hrows
  rw [hempty] at hkept
  cases hkept

end Protek.Retention
