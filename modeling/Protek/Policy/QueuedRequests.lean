import Protek.Policy.ApprovalQueue

/-! # Do approved requests take effect

A request that goes to the approval queue becomes a queue row without a decision,
and approving the row changes its status only. The cycle reads the queue as a
filter on the active decisions, so an approved request is listed where some other
writer holds a decision on its value.
-/
namespace Protek.Policy
open Foundation Foundation.PyText Foundation.IpAddress Foundation.Clock Protek.Store Protek.Mirror

/-- The queue holds the row `qid` for the value, in a status that `P` allows. -/
def Queued (P : QueueStatus → Prop) (db : Db) (qid : ℕ) (v : String) : Prop :=
  ∃ q ∈ db.approvalQueue, q.id = qid ∧ q.ip = v ∧ P q.status

section
variable {U : CaseMap} {T : CharTable} {db db' s : Db} {e : QueueEvent} {P : QueueStatus → Prop} {qid : ℕ} {v : String}

/-- A row keeps its value, and its status until a decision on it. -/
theorem Queued.step (hq : Queued P db qid v) (h : QueueStep U T db e db')
    (hP : ∀ status, e.op.decided = some (qid,status) → P status) : Queued P db' qid v := by
  obtain ⟨q,hmem,hid,hip,hs⟩ := hq
  cases hd : e.op.decided with
  | none =>
    obtain ⟨fresh,happ,_⟩ := h.appended hd
    exact ⟨q,happ.queue ▸ List.mem_append_left _ hmem,hid,hip,hs⟩
  | some p =>
    obtain ⟨i,status⟩ := p
    refine ⟨markRow i status q,?_,?_⟩
    · rw [(h.queue_of_decided hd).1]
      exact List.mem_map_of_mem hmem
    · unfold markRow
      split
      · next hi => exact ⟨hid,hip,hP status (by rw [hd, ← hi, hid])⟩
      · exact ⟨hid,hip,hs⟩

/-- A decision on a queued row gives it the status of the decision. -/
theorem Queued.decide {status : QueueStatus} (hq : Queued (fun _ => True) db qid v) (h : QueueStep U T db e db')
    (hd : e.op.decided = some (qid,status)) : Queued (fun st => st = status) db' qid v := by
  obtain ⟨q,hmem,hid,hip,_⟩ := hq
  refine ⟨markRow qid status q,?_,?_⟩
  · rw [(h.queue_of_decided hd).1]
    exact List.mem_map_of_mem hmem
  · rw [markRow, if_pos hid]
    exact ⟨hid,hip,rfl⟩

theorem Queued.trace {ts : List (Transition Db QueueEvent)} (h : Trace (QueueStep U T) db ts s) (hq : Queued P db qid v)
    (hP : ∀ t ∈ ts, ∀ status, t.label.op.decided = some (qid,status) → P status) : Queued P s qid v :=
  (h.invariant (I := fun db => Queued P db qid v) (C := fun t => ∀ status, t.label.op.decided = some (qid,status) →
    P status) hq (fun _ hs hC hI => hI.step hs hC) hP).1

theorem approved_of_queued (h : Queued (fun st => st = .approved) db qid v) : approved db v = true := by
  obtain ⟨q,hmem,_,hip,hs⟩ := h
  exact List.any_eq_true.mpr ⟨q,hmem,by simp [hs, hip]⟩

end

/-! ## A request, its approval, and the cycles after it -/

section
variable (U : CaseMap) (T : CharTable)

/-- In the run a request for `v` was queued and later approved, and `c` is a cycle after the
approval, with no rejection of the request in between, before the end of the ban asked for. -/
inductive Granted (ts : List (Transition Db QueueEvent)) (c : Transition Db QueueEvent) (v : String) : Prop
  | intro {early mid late rest : List (Transition Db QueueEvent)} {req app : Transition Db QueueEvent}
      {token : Option Token} {body : ExternalBody} {reply : ExternalReply} {qid : ℕ} {u : Instant}
      (hsplit : ts = early ++ req :: (mid ++ app :: (late ++ c :: rest)))
      (hop : req.label.op = .run (.externalDecisions token body))
      (haccepted : externalDecisions T req.before token body req.label.now = .ok (reply,req.after))
      (hqueued : reply.approvalQueueId = some qid) (hvalue : reply.ip = v)
      (hgranted : app.label.op.decided = some (qid,.approved))
      (hlate : ∀ t ∈ late, t.label.op.decided ≠ some (qid,.rejected))
      (hcycle : c.label.op = .run .cycle) (huntil : reply.untilAt = isoformat u) (hlive : c.label.now < u)

def TakesEffect (c : Transition Db QueueEvent) (v : String) : Prop :=
  whitelisted U c.before c.label.now v = none → ∃ d ∈ (desiredFromDb U T c.before c.label.now).1, d.value = v

/-- The cycle finds a decision on the value that enough sources have seen. -/
def Supplied (c : Transition Db QueueEvent) (v : String) : Prop :=
  whitelisted U c.before c.label.now v = none →
    (∃ r ∈ c.before.activeRows, r.value = v) ∧ qualifies T c.before c.label.now v = true

end

section
variable {U : CaseMap} {T : CharTable} {db s : Db} {ts : List (Transition Db QueueEvent)}
variable {c : Transition Db QueueEvent} {v : String}

/-- The approval still stands at the cycle. -/
theorem Granted.approved (h : Trace (QueueStep U T) db ts s) (hg : Granted T ts c v) :
    approved c.before v = true := by
  obtain @⟨early,mid,late,rest,req,app,token,body,reply,qid,u,rfl,hop,haccepted,hqueued,hvalue,hgranted,hlate,_,_,_⟩ := hg
  have hreq : Trace (QueueStep U T) req.after (mid ++ app :: (late ++ c :: rest)) s := h.drop
  obtain ⟨fresh,happ,_,hrow⟩ := appended_externalDecisions haccepted
  obtain ⟨q,hq,hid,hip⟩ := hrow qid hqueued
  have hfirst : Queued (fun _ => True) req.after qid v :=
    ⟨q,happ.queue ▸ List.mem_append_right _ hq,hid,hip.trans hvalue,trivial⟩
  have hmid : Queued (fun _ => True) app.before qid v := hfirst.trace hreq.take (fun _ _ _ _ => trivial)
  have hdecided : Queued (fun st => st = .approved) app.after qid v :=
    hmid.decide (hreq.mem_step app (List.mem_append_right _ List.mem_cons_self)) hgranted
  refine approved_of_queued (hdecided.trace hreq.drop.take (fun t ht status hd => ?_))
  rcases QueueOp.decided_cases hd with rfl | rfl
  · rfl
  · exact absurd hd (hlate t ht)

end

/-- Along a run every approved request is listed until its ban ends exactly when each cycle
finds a decision on its value from somewhere else. -/
theorem approved_requests_listed_iff (U : CaseMap) (T : CharTable) {db s : Db} {ts : List (Transition Db QueueEvent)}
    (h : Trace (QueueStep U T) db ts s) :
    (∀ c v, Granted T ts c v → TakesEffect U T c v) ↔ ∀ c v, Granted T ts c v → Supplied U T c v := by
  refine forall_congr' (fun c => forall_congr' (fun v => imp_congr_right (fun hg => imp_congr_right (fun hw => ?_))))
  have happroved := hg.approved h
  rw [mem_desiredFromDb]
  constructor
  · rintro ⟨hrow,helig,_⟩
    exact ⟨hrow,helig.1⟩
  · rintro ⟨hrow,hq⟩
    exact ⟨hrow,⟨hq,fun _ => happroved⟩,hw⟩

/-! ## The queue alone lists nothing -/

/-- A request that is refused or queued, a decision on the queue, or a cycle. -/
def QueueOnly (T : CharTable) (t : Transition Db QueueEvent) : Prop :=
  match t.label.op with
  | .run (.externalDecisions token body) => ∀ reply db', externalDecisions T t.before token body t.label.now = .ok (reply,db') →
      reply.approvalQueueId.isSome = true
  | .run .cycle => True
  | .approvalsDecide _ _ => True
  | _ => False

section
variable {U : CaseMap} {T : CharTable} {db db' s : Db} {now : Instant}

theorem decisions_whitelistRejected (qid : ℕ) : (whitelistRejected U T db qid now).decisions = db.decisions := by
  unfold whitelistRejected
  split
  · rfl
  · split
    · next hadd =>
      obtain ⟨p,_,rfl⟩ := addWhitelist_eq_ok.mp hadd
      rfl
    · rfl

theorem decisions_externalDecisions {token : Option Token} {body : ExternalBody} {reply : ExternalReply}
    (h : externalDecisions T db token body now = .ok (reply,db')) (hqueued : reply.approvalQueueId.isSome = true) :
    db'.decisions = db.decisions := by
  obtain ⟨_,rfl⟩ | ⟨hid,_⟩ := externalDecisions_cases h
  · rfl
  · rw [hid] at hqueued
    cases hqueued

theorem decisions_approvalsDecide {qid : ℕ} {decision : Option String} {message : String}
    (h : approvalsDecide U T db qid decision now = .ok (message,db')) : db'.decisions = db.decisions := by
  unfold approvalsDecide at h
  dsimp only at h
  split at h
  · cases h
  · cases hq : queueDecide db qid (strip (orElse decision "")) with
    | error e =>
      rw [hq] at h
      cases h
      rfl
    | ok marked =>
      rw [hq] at h
      cases h
      have hmarked : marked.decisions = db.decisions := by
        unfold queueDecide at hq
        split at hq
        · cases hq
        · cases hq
          rfl
      split
      · exact (decisions_whitelistRejected qid).trans hmarked
      · exact hmarked

theorem QueueOnly.decisions {t : Transition Db QueueEvent} (h : QueueStep U T t.before t.label t.after)
    (ho : QueueOnly T t) : t.after.decisions = t.before.decisions := by
  rcases t with ⟨before,⟨now,op⟩,after⟩
  cases op with
  | others => exact ho.elim
  | approvalsDecide qid decision =>
    change after = _ at h
    rw [h]
    split
    · next hok => exact decisions_approvalsDecide hok
    · rfl
  | run op =>
    change after = _ at h
    cases op with
    | externalDecisions token body =>
      rw [h, perform]
      dsimp only
      split
      · next hok => exact decisions_externalDecisions hok (ho _ _ hok)
      · rfl
    | cycle => exact (congrArg Db.decisions h).trans decisions_desiredFromDb
    | asnDecide _ _ _ _ => exact ho.elim
    | bootstrap _ _ => exact ho.elim
    | streamApply _ _ _ => exact ho.elim
    | prune _ => exact ho.elim
    | bulkExtend _ _ => exact ho.elim

/-- Whatever was approved, a database without decisions lists no value in such a run. -/
theorem queue_lists_nothing {ts : List (Transition Db QueueEvent)} (h : Trace (QueueStep U T) db ts s)
    (hnone : db.activeRows = []) (ho : ∀ t ∈ ts, QueueOnly T t) : (desiredFromDb U T s now).1 = [] := by
  have hrows : s.activeRows = [] := (h.invariant (I := fun db => db.activeRows = []) (C := QueueOnly T) hnone
    (fun t hs hC hI => by rw [Db.activeRows, hC.decisions hs]; exact hI) ho).1
  refine List.eq_nil_iff_forall_not_mem.mpr (fun d hd => ?_)
  obtain ⟨⟨r,hr,_⟩,_⟩ := mem_desiredFromDb.mp ⟨d,hd,rfl⟩
  rw [hrows] at hr
  cases hr

end

/-! ## A request that is queued and approved -/

def queuedBan : ExternalBody := { ip := some "203.0.113.9", queue := true }

def requestQueued : QueueEvent := ⟨0,.run (.externalDecisions (some ⟨"siem",true⟩) queuedBan)⟩

def requestApproved : QueueEvent := ⟨hour,.approvalsDecide 1 (some "approved")⟩

def cycleWithBan : QueueEvent := ⟨2 * hour,.run .cycle⟩

def withRequest : Db := perform .ascii .ascii Db.empty ⟨requestQueued.now,.externalDecisions (some ⟨"siem",true⟩) queuedBan⟩

def withApproval : Db := { withRequest with approvalQueue := withRequest.approvalQueue.map (markRow 1 .approved) }

def cycleOfBan : Transition Db QueueEvent := ⟨withApproval,cycleWithBan,(desiredFromDb .ascii .ascii withApproval (2 * hour)).2⟩

def approvedRun : List (Transition Db QueueEvent) :=
  [⟨Db.empty,requestQueued,withRequest⟩,⟨withRequest,requestApproved,withApproval⟩,cycleOfBan]

theorem approvedRun_trace : Trace (QueueStep .ascii .ascii) Db.empty approvedRun cycleOfBan.after := by
  refine ((Trace.nil.snoc ?_).snoc ?_).snoc ?_
  · rfl
  · rfl
  · rfl

def queuedReply : ExternalReply :=
  ⟨true,"203.0.113.9/32","Ip","external/manual","external:siem",isoformat (4 * hour),true,some 1⟩

theorem requestQueued_accepted :
    externalDecisions .ascii Db.empty (some ⟨"siem",true⟩) queuedBan 0 = .ok (queuedReply,withRequest) := by
  have hreply : (externalDecisions .ascii Db.empty (some ⟨"siem",true⟩) queuedBan 0).toOption.map Prod.fst = some queuedReply := by
    decide
  cases h : externalDecisions .ascii Db.empty (some ⟨"siem",true⟩) queuedBan 0 with
  | error e =>
    rw [h] at hreply
    cases hreply
  | ok p =>
    obtain ⟨reply,db⟩ := p
    rw [h] at hreply
    cases hreply
    have hdb : withRequest = db := by
      unfold withRequest perform
      rw [show requestQueued.now = 0 from rfl]
      dsimp only
      rw [h]
    rw [hdb]
    rfl

theorem approvedRun_granted : Granted .ascii approvedRun cycleOfBan "203.0.113.9/32" := by
  refine @Granted.intro _ _ _ _ [] [] [] [] ⟨Db.empty,requestQueued,withRequest⟩ ⟨withRequest,requestApproved,withApproval⟩
    (some ⟨"siem",true⟩) queuedBan queuedReply 1 (4 * hour) rfl rfl requestQueued_accepted rfl rfl rfl (by simp) rfl rfl ?_
  decide

theorem approved_requests_listed_iff_example :
    (∀ c v, Granted .ascii approvedRun c v → TakesEffect .ascii .ascii c v) ↔
      ∀ c v, Granted .ascii approvedRun c v → Supplied .ascii .ascii c v :=
  approved_requests_listed_iff .ascii .ascii approvedRun_trace

/-- The request was approved and its ban runs, and the cycle lists nothing. -/
theorem approved_request_unlisted :
    ¬ ∀ (U : CaseMap) (T : CharTable) (s : Db) (ts : List (Transition Db QueueEvent)),
      Trace (QueueStep U T) Db.empty ts s → ∀ c v, Granted T ts c v → TakesEffect U T c v := by
  intro h
  have hnone : (desiredFromDb .ascii .ascii withApproval (2 * hour)).1 = [] := by decide
  obtain ⟨d,hd,_⟩ := h .ascii .ascii _ _ approvedRun_trace _ _ approvedRun_granted rfl
  rw [cycleOfBan, cycleWithBan] at hd
  dsimp only at hd
  rw [hnone] at hd
  cases hd

end Protek.Policy
