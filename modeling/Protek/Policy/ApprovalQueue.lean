import Protek.Policy.TimedBans

/-! # The approval queue

`queue_decision` appends pending rows, and `approvals_decide` sets the status of a
row whatever it was. A rejection also asks for a whitelist rule for the row's value
and does not look at the answer. No other step touches the queue.
-/
namespace Protek.Policy
open Foundation Foundation.PyText Foundation.IpAddress Foundation.Clock Protek.Store Protek.Mirror

/-- The statuses that `decide` writes. -/
def verdict (decision : String) : Option QueueStatus :=
  if decision = "approved" then some .approved else if decision = "rejected" then some .rejected else none

def markRow (queueId : ℕ) (status : QueueStatus) (q : QueueRow) : QueueRow :=
  if q.id = queueId then { q with status := status } else q

/-- `decide` of the queue. -/
def queueDecide (db : Db) (queueId : ℕ) (decision : String) : Except String Db :=
  match verdict decision with
  | none => .error "decision must be approved|rejected"
  | some status => .ok { db with approvalQueue := db.approvalQueue.map (markRow queueId status) }

section
variable (U : CaseMap) (T : CharTable)

/-- The rule that keeps a rejected value from being queued again, if `add_whitelist` takes it. -/
def whitelistRejected (db : Db) (qid : ℕ) (now : Instant) : Db :=
  match db.approvalQueue.find? (fun q => q.id = qid) with
  | none => db
  | some row =>
    match addWhitelist U T db "ip" row.ip "auto: rejected from approval queue" none now with
    | .ok db' => db'
    | .error _ => db

/-- The flashed message and the database, or the status that the request is aborted with. -/
def approvalsDecide (db : Db) (qid : ℕ) (decision : Option String) (now : Instant) : Except ℕ (String × Db) :=
  let decision := strip (orElse decision "")
  if decision ≠ "approved" ∧ decision ≠ "rejected" then .error 400
  else match queueDecide db qid decision with
    | .error e => .ok (e,db)
    | .ok db' =>
      .ok ("decision recorded: " ++ decision,if decision = "rejected" then whitelistRejected U T db' qid now else db')

end

/-! ## Runs -/

inductive QueueOp
  /-- A writer, a pull or a cycle. -/
  | run (op : Op)
  | approvalsDecide (qid : ℕ) (decision : Option String)
  /-- Whatever else writes the database: neither the queue nor the whitelist. -/
  | others

structure QueueEvent where
  now : Instant
  op : QueueOp

/-- The row that an operation decides on, and how. -/
def QueueOp.decided : QueueOp → Option (ℕ × QueueStatus)
  | .approvalsDecide qid decision => (verdict (strip (orElse decision ""))).map (fun status => (qid,status))
  | _ => none

/-- No decision makes a row pending again. -/
theorem QueueOp.decided_cases {op : QueueOp} {qid : ℕ} {status : QueueStatus} (h : op.decided = some (qid,status)) :
    status = .approved ∨ status = .rejected := by
  cases op with
  | run op => cases h
  | others => cases h
  | approvalsDecide id decision =>
    obtain ⟨status',hv,heq⟩ := Option.map_eq_some_iff.mp h
    cases heq
    unfold verdict at hv
    split at hv
    · exact Or.inl (Option.some.inj hv).symm
    · split at hv
      · exact Or.inr (Option.some.inj hv).symm
      · cases hv

section
variable (U : CaseMap) (T : CharTable)

def QueueStep (db : Db) (e : QueueEvent) (db' : Db) : Prop :=
  match e.op with
  | .run op => db' = perform U T db ⟨e.now,op⟩
  | .approvalsDecide qid decision =>
    db' = match approvalsDecide U T db qid decision e.now with
      | .ok (_,after) => after
      | .error _ => db
  | .others =>
    db'.approvalQueue = db.approvalQueue ∧ db'.approvalQueueSeq = db.approvalQueueSeq ∧ db'.whitelist = db.whitelist

end

/-! ## What a step does to the queue -/

/-- The rows that a list of decisions becomes. -/
def queueRows (now : Instant) : ℕ → List DesiredRow → List QueueRow
  | _, [] => []
  | seq, d :: rest =>
    ⟨seq + 1,d.value,d.scope,d.scenario,d.origin,d.originSource,some d.lapiId,.pending,isoformat now⟩ ::
      queueRows now (seq + 1) rest

section
variable {U : CaseMap} {T : CharTable} {db db' : Db} {now : Instant}

theorem map_ip_queueRows (seq : ℕ) (ds : List DesiredRow) :
    (queueRows now seq ds).map QueueRow.ip = ds.map DesiredRow.value := by
  induction ds generalizing seq with
  | nil => rfl
  | cons d rest ih => rw [queueRows, List.map_cons, List.map_cons, ih]

theorem map_id_queueRows (seq : ℕ) (ds : List DesiredRow) :
    (queueRows now seq ds).map QueueRow.id = List.range' (seq + 1) ds.length := by
  induction ds generalizing seq with
  | nil => rfl
  | cons d rest ih => rw [queueRows, List.map_cons, List.length_cons, List.range'_succ, ih]

theorem mem_queueRows {seq : ℕ} {ds : List DesiredRow} {q : QueueRow} (h : q ∈ queueRows now seq ds) :
    q.status = .pending ∧ q.decisionId.isSome = true := by
  induction ds generalizing seq with
  | nil => cases h
  | cons d rest ih =>
    rcases List.mem_cons.mp h with rfl | h
    · exact ⟨rfl,rfl⟩
    · exact ih h

/-- The decisions that a cycle puts into the queue. -/
def toQueue (U : CaseMap) (T : CharTable) (db : Db) (now : Instant) : List DesiredRow :=
  (selectRows T db now).filter (fun d => whitelisted U db now d.value = none ∧ queued db d.value = false)

theorem queued_of_approved {v : String} (h : approved db v = true) : queued db v = true := by
  obtain ⟨q,hq,hs⟩ := List.any_eq_true.mp h
  exact List.any_eq_true.mpr ⟨q,hq,by simpa using (by simpa using hs : q.status = .approved ∧ q.ip = v).2⟩

theorem approvalQueue_foldl (skip : DesiredRow → Prop) [DecidablePred skip] (ds : List DesiredRow) (acc : Db) :
    (ds.foldl (fun acc d => if skip d then acc
      else queueDecision acc d.value d.scope d.scenario d.origin d.originSource (some d.lapiId) now) acc).approvalQueue =
      acc.approvalQueue ++ queueRows now acc.approvalQueueSeq (ds.filter (fun d => ¬skip d)) ∧
    (ds.foldl (fun acc d => if skip d then acc
      else queueDecision acc d.value d.scope d.scenario d.origin d.originSource (some d.lapiId) now) acc).approvalQueueSeq =
      acc.approvalQueueSeq + (ds.filter (fun d => ¬skip d)).length := by
  induction ds generalizing acc with
  | nil => simp [queueRows]
  | cons d rest ih =>
    rw [List.foldl_cons]
    by_cases hd : skip d
    · simpa [hd] using ih acc
    · obtain ⟨hrows,hseq⟩ := ih (queueDecision acc d.value d.scope d.scenario d.origin d.originSource (some d.lapiId) now)
      rw [if_neg hd, hrows, hseq, List.filter_cons_of_pos (by simpa using hd), List.length_cons]
      constructor
      · rw [queueRows, queueDecision]
        simp
      · change acc.approvalQueueSeq + 1 + _ = _
        omega

/-- In semi-auto mode a cycle queues the decisions whose value is neither spared nor in the queue. -/
theorem approvalQueue_desiredFromDb (hmode : approvalRequired db.settings = true) :
    (desiredFromDb U T db now).2.approvalQueue =
      db.approvalQueue ++ queueRows now db.approvalQueueSeq (toQueue U T db now) ∧
    (desiredFromDb U T db now).2.approvalQueueSeq = db.approvalQueueSeq + (toQueue U T db now).length := by
  unfold desiredFromDb
  by_cases hnil : selectRows T db now = []
  · simp [hnil, toQueue, queueRows]
  · simp only [hnil, if_false, hmode, if_true]
    have htoQueue : ((selectRows T db now).filter (fun d => (whitelisted U db now d.value).isNone)).filter
        (fun d => ¬(approved db d.value = true ∨ queued db d.value = true)) = toQueue U T db now := by
      rw [List.filter_filter, toQueue]
      refine List.filter_congr (fun d _ => ?_)
      simp only [or_iff_right_of_imp queued_of_approved]
      cases whitelisted U db now d.value <;> cases queued db d.value <;> rfl
    rw [(approvalQueue_foldl _ _ _).1, (approvalQueue_foldl _ _ _).2, htoQueue,
      foldl_hits_keeps Db.approvalQueue (fun _ _ _ _ => rfl), foldl_hits_keeps Db.approvalQueueSeq (fun _ _ _ _ => rfl)]
    exact ⟨rfl,rfl⟩

theorem approvalQueue_desiredFromDb_auto (hmode : approvalRequired db.settings = false) :
    (desiredFromDb U T db now).2.approvalQueue = db.approvalQueue ∧
    (desiredFromDb U T db now).2.approvalQueueSeq = db.approvalQueueSeq := by
  unfold desiredFromDb
  by_cases hnil : selectRows T db now = []
  · simp only [hnil, if_true, and_self]
  · simp only [hnil, if_false, hmode, Bool.false_eq_true]
    exact ⟨foldl_hits_keeps Db.approvalQueue (fun _ _ _ _ => rfl) _ _,
      foldl_hits_keeps Db.approvalQueueSeq (fun _ _ _ _ => rfl) _ _⟩

/-- The rows of `fresh` came to the end of the queue, pending and under new ids. -/
structure Appended (fresh : List QueueRow) (db db' : Db) : Prop where
  queue : db'.approvalQueue = db.approvalQueue ++ fresh
  ids : fresh.map QueueRow.id = List.range' (db.approvalQueueSeq + 1) fresh.length
  seq : db'.approvalQueueSeq = db.approvalQueueSeq + fresh.length
  pending : ∀ q ∈ fresh, q.status = .pending
  whitelist : db'.whitelist = db.whitelist

/-- What the approvals route reads and writes. -/
def queueView (db : Db) : List QueueRow × ℕ × KeyedTable (WhitelistKind × String) WhitelistRule WhitelistRule.key :=
  (db.approvalQueue,db.approvalQueueSeq,db.whitelist)

theorem Appended.of_queueView (h : queueView db' = queueView db) : Appended [] db db' := by
  simp only [queueView, Prod.mk.injEq] at h
  obtain ⟨hq,hs,hw⟩ := h
  exact ⟨by rw [hq, List.append_nil],rfl,hs,by simp,hw⟩

theorem appended_queueDecision (ip scope scenario origin originSource : String) (decisionId : Option ℤ) :
    Appended [⟨db.approvalQueueSeq + 1,ip,scope,scenario,origin,originSource,decisionId,.pending,isoformat now⟩] db
      (queueDecision db ip scope scenario origin originSource decisionId now) :=
  ⟨rfl,rfl,rfl,by simp,rfl⟩

theorem appended_cycle : Appended
    (if approvalRequired db.settings then queueRows now db.approvalQueueSeq (toQueue U T db now) else []) db
    (desiredFromDb U T db now).2 := by
  have hw : (desiredFromDb U T db now).2.whitelist = db.whitelist :=
    desiredFromDb_keeps Db.whitelist (fun _ _ _ _ => rfl) (fun _ _ => rfl)
  cases hmode : approvalRequired db.settings with
  | false =>
    obtain ⟨hq,hs⟩ := @approvalQueue_desiredFromDb_auto U T db now hmode
    exact .of_queueView (by rw [queueView, hq, hs, hw]; rfl)
  | true =>
    obtain ⟨hq,hs⟩ := @approvalQueue_desiredFromDb U T db now hmode
    have hlen : (queueRows now db.approvalQueueSeq (toQueue U T db now)).length = (toQueue U T db now).length := by
      simpa using congrArg List.length (@map_ip_queueRows now db.approvalQueueSeq (toQueue U T db now))
    refine ⟨hq,?_,?_,fun q hq => (mem_queueRows hq).1,hw⟩
    · rw [if_pos rfl, hlen]
      exact map_id_queueRows _ _
    · rw [if_pos rfl, hlen]
      exact hs

/-- A request is either written at once or queued without a decision's id. -/
theorem appended_externalDecisions {token : Option Token} {body : ExternalBody} {reply : ExternalReply}
    (h : externalDecisions T db token body now = .ok (reply,db')) :
    ∃ fresh, Appended fresh db db' ∧ (∀ q ∈ fresh, q.decisionId = none) ∧
      ∀ qid, reply.approvalQueueId = some qid → ∃ q ∈ fresh, q.id = qid ∧ q.ip = reply.ip := by
  obtain ⟨hid,rfl⟩ | ⟨hid,_,_,rfl⟩ := externalDecisions_cases h
  · refine ⟨_,appended_queueDecision _ _ _ _ _ _,by simp,fun qid hq => ⟨_,List.mem_singleton_self _,?_,rfl⟩⟩
    exact Option.some.inj (hid.symm.trans hq)
  · refine ⟨[],.of_queueView rfl,by simp,fun qid hq => ?_⟩
    cases hid.symm.trans hq

theorem queueView_execAll (stmts : List Stmt) (db : Db) : queueView (execAll db stmts) = queueView db := by
  refine execAll_keeps queueView (fun st _ _ => ?_) db
  cases st <;> rfl

theorem queueView_prune (rounds : ℕ) : queueView (prune T db rounds) = queueView db := by
  unfold prune
  split
  · rfl
  · split
    · rfl
    · induction rounds with
      | zero => rfl
      | succ rounds ih =>
        rw [Function.iterate_succ_apply']
        exact ih

theorem queueView_asnDecide {id : ℕ} {decision decidedBy note : String} {reply : AsnReply}
    (h : asnDecide db id decision decidedBy note now = .ok (reply,db')) : queueView db' = queueView db := by
  obtain ⟨_,rfl | ⟨_,_,rfl⟩⟩ := asnDecide_cases h
  · rfl
  · rfl

/-- Writers and pulls only append to the queue, and the rows of a decision come from cycles alone. -/
theorem appended_perform (e : Event) : ∃ fresh, Appended fresh db (perform U T db e) ∧
    (e.op ≠ .cycle → ∀ q ∈ fresh, q.decisionId = none) := by
  rcases e with ⟨now,op⟩
  have hnone : queueView (perform U T db ⟨now,op⟩) = queueView db → ∃ fresh, Appended fresh db (perform U T db ⟨now,op⟩) ∧
      (op ≠ .cycle → ∀ q ∈ fresh, q.decisionId = none) := fun h => ⟨[],.of_queueView h,by simp⟩
  cases op with
  | externalDecisions token body =>
    cases hreq : externalDecisions T db token body now with
    | error e => exact hnone (by simp only [perform, hreq])
    | ok p =>
      obtain ⟨reply,after⟩ := p
      obtain ⟨fresh,happ,hid,_⟩ := appended_externalDecisions hreq
      exact ⟨fresh,by simpa only [perform, hreq] using happ,fun _ => hid⟩
  | asnDecide id decision decidedBy note =>
    cases hreq : asnDecide db id decision decidedBy note now with
    | error e => exact hnone (by simp only [perform, hreq])
    | ok p =>
      obtain ⟨reply,after⟩ := p
      exact hnone (by simpa only [perform, hreq] using queueView_asnDecide hreq)
  | bootstrap name decisions => exact hnone (queueView_execAll _ db)
  | streamApply name new deleted => exact hnone (queueView_execAll _ db)
  | prune rounds => exact hnone (queueView_prune rounds)
  | bulkExtend ips hours => exact hnone rfl
  | cycle => exact ⟨_,appended_cycle,fun h => absurd rfl h⟩

variable {e : QueueEvent}

theorem QueueStep.appended (h : QueueStep U T db e db') (hd : e.op.decided = none) :
    ∃ fresh, Appended fresh db db' ∧ (e.op ≠ .run .cycle → ∀ q ∈ fresh, q.decisionId = none) := by
  rcases e with ⟨now,op⟩
  cases op with
  | run op =>
    change db' = _ at h
    obtain ⟨fresh,happ,hid⟩ := @appended_perform U T db ⟨now,op⟩
    exact ⟨fresh,h ▸ happ,fun hop => hid (fun he => hop (congrArg QueueOp.run he))⟩
  | approvalsDecide qid decision =>
    change db' = _ at h
    have hrefused : strip (orElse decision "") ≠ "approved" ∧ strip (orElse decision "") ≠ "rejected" := by
      simp only [QueueOp.decided, verdict, Option.map_eq_none_iff] at hd
      split at hd
      · cases hd
      · next ha =>
        split at hd
        · cases hd
        · next hr => exact ⟨ha,hr⟩
    rw [approvalsDecide, if_pos hrefused] at h
    exact ⟨[],.of_queueView (congrArg queueView h),by simp⟩
  | others => exact ⟨[],.of_queueView (by rw [queueView, h.1, h.2.1, h.2.2]; rfl),by simp⟩

/-- A decision sets the status of the row, and a rejection asks for a whitelist rule besides. -/
theorem QueueStep.decided {qid : ℕ} {status : QueueStatus} (h : QueueStep U T db e db')
    (hd : e.op.decided = some (qid,status)) :
    db' = if status = .rejected then
        whitelistRejected U T { db with approvalQueue := db.approvalQueue.map (markRow qid status) } qid e.now
      else { db with approvalQueue := db.approvalQueue.map (markRow qid status) } := by
  rcases e with ⟨now,op⟩
  cases op with
  | run op => cases hd
  | others => cases hd
  | approvalsDecide id decision =>
    change db' = _ at h
    obtain ⟨status',hverdict,heq⟩ := Option.map_eq_some_iff.mp hd
    cases heq
    unfold approvalsDecide queueDecide at h
    unfold verdict at hverdict
    split at hverdict
    · next ha =>
      cases hverdict
      simpa [ha, verdict] using h
    · split at hverdict
      · next hr =>
        cases hverdict
        simpa [hr, verdict] using h
      · cases hverdict

theorem queue_whitelistRejected (qid : ℕ) : (whitelistRejected U T db qid now).approvalQueue = db.approvalQueue ∧
    (whitelistRejected U T db qid now).approvalQueueSeq = db.approvalQueueSeq := by
  unfold whitelistRejected
  split
  · exact ⟨rfl,rfl⟩
  · split
    · next hadd =>
      obtain ⟨p,_,rfl⟩ := addWhitelist_eq_ok.mp hadd
      exact ⟨rfl,rfl⟩
    · exact ⟨rfl,rfl⟩

theorem QueueStep.queue_of_decided {qid : ℕ} {status : QueueStatus} (h : QueueStep U T db e db')
    (hd : e.op.decided = some (qid,status)) :
    db'.approvalQueue = db.approvalQueue.map (markRow qid status) ∧ db'.approvalQueueSeq = db.approvalQueueSeq := by
  have hdb := h.decided hd
  split at hdb
  · rw [hdb]
    exact queue_whitelistRejected qid
  · rw [hdb]
    exact ⟨rfl,rfl⟩

end
end Protek.Policy
