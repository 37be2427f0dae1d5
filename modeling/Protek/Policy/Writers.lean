import Protek.Policy.Desired

/-! # Protek's own writers

The routes and jobs that write decisions besides the pulls: the external API, an
approved ASN escalation, the bulk action that extends bans, and the retention
sweep. None of them looks for bans whose `until` has passed.
-/
namespace Protek.Policy
open Foundation Foundation.PyText Foundation.IpAddress Foundation.Clock Protek.Store

/-! ## POST /api/external/decisions -/

structure Token where
  name : String
  write : Bool

structure ExternalBody where
  ip : Option String := none
  value : Option String := none
  scope : Option String := none
  scenario : Option String := none
  duration : Option String := none
  queue : Bool := false

structure ApiError where
  status : ℕ
  error : String
  required : Option String := none
  deriving DecidableEq, Repr

structure ExternalReply where
  accepted : Bool := true
  ip : String
  scope : String
  scenario : String
  originSource : String
  untilAt : String
  queued : Bool
  approvalQueueId : Option ℕ
  deriving DecidableEq, Repr

def unitSeconds (c : Char) : Option ℕ :=
  if c = 'h' then some 3600 else if c = 'm' then some 60 else if c = 's' then some 1 else none

/-- `_parse_duration`: the sum over the matches of `(\d+)([hms])`; the pair holds the
sum and the digits that stand right before. -/
def parseDuration (T : CharTable) (s : String) : ℕ :=
  let total := (s.toList.foldl (fun (total,amount) c => match T.decimal c with
    | some d => (total,some (amount.getD 0 * 10 + d.val))
    | none => match amount, unitSeconds c with
      | some n, some k => (total + n * k,none)
      | _, _ => (total,none)) ((0,none) : ℕ × Option ℕ)).1
  if total = 0 then 14400 else total

/-- The first id from `start` that no row of the source has, after at most `tries` steps. -/
def syntheticId (db : Db) (originSource : String) (tries : ℕ) (start : ℤ) : ℤ :=
  match tries with
  | 0 => start
  | tries + 1 =>
    if db.decisions.rows.any (fun r => r.originSource = originSource ∧ r.lapiId = start) then
      syntheticId db originSource tries (start + 1)
    else start

def millis (now : Instant) : ℤ := (now / 1000 : ℕ)

def externalRow (originSource : String) (lapiId : ℤ) (value scope scenario duration untilAt now : String) : DecisionRow where
  id := 0
  originSource := originSource
  lapiId := lapiId
  value := value
  scope := scope
  type := "ban"
  scenario := scenario
  origin := "external"
  duration := duration
  untilAt := some untilAt
  firstSeenAt := now
  lastSeenAt := now
  deletedAt := none

def refreshExternal (fresh r : DecisionRow) : DecisionRow :=
  { r with
    lapiId := fresh.lapiId
    duration := fresh.duration
    untilAt := fresh.untilAt
    lastSeenAt := fresh.lastSeenAt
    deletedAt := none }

/-- `token` is what the lookup of the presented token gave. -/
def externalDecisions (T : CharTable) (db : Db) (token : Option Token) (body : ExternalBody) (now : Instant) :
    Except ApiError (ExternalReply × Db) :=
  match token with
  | none => .error ⟨401,"unauthorized",none⟩
  | some tok =>
    if tok.write = false then .error ⟨403,"insufficient_scope",some "write"⟩
    else
      let raw := strip (orElse body.ip (orElse body.value ""))
      if raw = "" then .error ⟨400,"ip required",none⟩
      else match ipNetwork raw with
        | none => .error ⟨400,"ip must be a valid IP address or CIDR",none⟩
        | some net =>
          let ip := net.text
          let scope := strip (orElse body.scope "Ip")
          let scenario := strip (orElse body.scenario "external/manual")
          let duration := strip (orElse body.duration "4h")
          let untilDt := now + parseDuration T duration * second
          -- adding the timedelta raises OverflowError, which nothing catches
          if endOfTime ≤ untilDt then .error ⟨500,"Internal Server Error",none⟩
          else
            let originSource := "external:" ++ tok.name
            let reply (qid : Option ℕ) : ExternalReply := ⟨true,ip,scope,scenario,originSource,isoformat untilDt,qid.isSome,qid⟩
            if body.queue ∨ db.settings "settings.approval_required" = some "1" then
              .ok (reply (some (db.approvalQueueSeq + 1)),
                queueDecision db ip scope scenario "external" originSource none now)
            else
              let row := externalRow originSource (syntheticId db originSource 50 (millis now)) ip scope scenario duration
                (isoformat untilDt) (isoformat now)
              .ok (reply none,db.upsertDecision row (refreshExternal row) (fun _ => rfl))

/-! ## Approving an ASN escalation -/

def asnRow (asn : String) (lapiId : ℤ) (untilAt now : String) : DecisionRow where
  id := 0
  originSource := "asn_detector"
  lapiId := lapiId
  value := asn
  scope := "AS"
  type := "ban"
  scenario := "asn_detector/escalation"
  origin := "asn_detector"
  duration := "720h"
  untilAt := some untilAt
  firstSeenAt := now
  lastSeenAt := now
  deletedAt := none

def refreshAsn (fresh r : DecisionRow) : DecisionRow :=
  { r with
    lapiId := fresh.lapiId
    untilAt := fresh.untilAt
    lastSeenAt := fresh.lastSeenAt
    deletedAt := none }

structure AsnReply where
  id : ℕ
  decision : String
  asn : String
  decisionId : Option ℤ := none
  deriving DecidableEq, Repr

def markEscalation (id : ℕ) (status : QueueStatus) (decidedBy note now : String) (e : AsnEscalation) : AsnEscalation :=
  if e.id = id then { e with status := status, decidedBy := decidedBy, decidedAt := some now, note := note } else e

theorem markEscalation_id {id : ℕ} {status : QueueStatus} {decidedBy note now : String} (e : AsnEscalation) :
    (markEscalation id status decidedBy note now e).id = e.id := by
  unfold markEscalation
  split <;> rfl

def asnDecide (db : Db) (escalationId : ℕ) (decision decidedBy note : String) (now : Instant) :
    Except String (AsnReply × Db) :=
  let marked (status : QueueStatus) : Db :=
    { db with
      asnEscalations :=
        db.asnEscalations.modify (markEscalation escalationId status decidedBy note (isoformat now)) markEscalation_id }
  if decision = "approved" then
    match db.asnEscalations.find escalationId with
    | none => .error "escalation not found"
    | some e =>
      let row := asnRow e.asn (millis now) (isoformat (now + 30 * day)) (isoformat now)
      .ok (⟨escalationId,decision,e.asn,some row.lapiId⟩,
        (marked .approved).upsertDecision row (refreshAsn row) (fun _ => rfl))
  else if decision = "rejected" then
    match db.asnEscalations.find escalationId with
    | none => .error "escalation not found"
    | some e => .ok (⟨escalationId,decision,e.asn,none⟩,marked .rejected)
  else .error "decision must be 'approved' or 'rejected'"

/-! ## The bulk action `extend` -/

def splitIps (ips : Option String) : List String :=
  (((strip (orElse ips "")).toList.splitOn ',').map (fun cs => strip (String.ofList cs))).filter (fun s => s ≠ "")

/-- `max(1, min(720, int(…)))`, 24 where the form gives no number. -/
def extendHours (T : CharTable) (hours : Option String) : ℤ :=
  match pyInt T (hours.getD "24") with
  | some h => max 1 (min 720 h)
  | none => 24

def extendRow (untilAt : String) (r : DecisionRow) : DecisionRow := { r with untilAt := some untilAt }

def bulkExtend (T : CharTable) (db : Db) (ips hours : Option String) (now : Instant) : Db :=
  db.updateDecisions (fun r => r.value ∈ splitIps ips ∧ r.active)
    (extendRow (isoformat (now + (extendHours T hours).toNat * hour))) (fun _ => rfl)

/-! ## The bulk action `delete` -/

def bulkDelete (db : Db) (ips : Option String) (now : Instant) : Db :=
  db.tombstone (fun r => r.value ∈ splitIps ips ∧ r.active) (isoformat now)

/-! ## The retention sweep -/

def settingInt (T : CharTable) (db : Db) (key : String) (default : ℕ) : ℕ :=
  let raw := orElse (db.settings key) ""
  if raw = "" then default
  else match pyInt T raw with
    | some n => (max 0 n).toNat
    | none => default

/-- The id of the newest tombstone beyond the cap. -/
def cutoffId (db : Db) (cap : ℕ) : Option ℕ :=
  (((db.decisions.rows.filter (fun r => !r.active)).map DecisionRow.id).insertionSort (fun a b => b ≤ a))[cap]?

def pendingDecisionIds (db : Db) : List ℤ :=
  (db.approvalQueue.filter (fun q => q.status = .pending)).filterMap QueueRow.decisionId

/-- One batch of the DELETE: the oldest tombstones up to the cutoff that no pending approval names. -/
def deleteBatch (db : Db) (cutoff size : ℕ) : Db :=
  let ids := (((db.decisions.rows.filter (fun r => !r.active ∧ r.id ≤ cutoff ∧ (r.id : ℤ) ∉ pendingDecisionIds db)).map
    DecisionRow.id).insertionSort (fun a b => a ≤ b)).take size
  { db with decisions := db.decisions.remove (fun r => !r.active ∧ r.id ∈ ids) }

/-- `prune` on the decisions table; `rounds` is how many batches the time budget admits. -/
def prune (T : CharTable) (db : Db) (rounds : ℕ) : Db :=
  if orElse (db.settings "retention.enabled") "1" ≠ "1" then db
  else match cutoffId db (settingInt T db "retention.decisions_tombstone_cap" 500000) with
    | none => db
    | some cutoff => (fun db => deleteBatch db cutoff (settingInt T db "retention.batch_size" 5000))^[rounds] db

/-! ## What the writers do to the row of a key -/

/-- A row of the key is active. -/
def Banned (db : Db) (k : String × Identity) : Prop := ∃ r ∈ db.activeRows, r.key = k

inductive RowChange (before after : Option DecisionRow) : Prop
  | kept (ha : after = before)
  | written {r : DecisionRow} (ha : after = some r) (hu : r.untilAt.isSome = true) (hd : r.deletedAt = none)
  | extended {r : DecisionRow} {u : String} (hb : before = some r) (ha : after = some (extendRow u r))
  | swept {r : DecisionRow} (hb : before = some r) (hd : r.active = false) (ha : after = none)

section
variable {T : CharTable} {db db' : Db} {now : Instant} {k : String × Identity}

theorem banned_iff : Banned db k ↔ ∃ r, db.decisions.find k = some r ∧ r.deletedAt = none := by
  constructor
  · rintro ⟨r,hr,hk⟩
    obtain ⟨hmem,hd⟩ := Db.mem_activeRows.mp hr
    exact ⟨r,KeyedTable.find_eq_some.mpr ⟨hmem,hk⟩,hd⟩
  · rintro ⟨r,hr,hd⟩
    obtain ⟨hmem,hk⟩ := KeyedTable.find_eq_some.mp hr
    exact ⟨r,Db.mem_activeRows.mpr ⟨hmem,hd⟩,hk⟩

/-- None of the changes lifts a ban. -/
theorem RowChange.banned (h : RowChange (db.decisions.find k) (db'.decisions.find k)) (hb : Banned db k) :
    Banned db' k := by
  obtain ⟨r,hr,hd⟩ := banned_iff.mp hb
  rw [banned_iff]
  cases h with
  | kept ha => exact ⟨r,ha.trans hr,hd⟩
  | written ha _ hd => exact ⟨_,ha,hd⟩
  | extended hb ha =>
    cases hr.symm.trans hb
    exact ⟨_,ha,hd⟩
  | swept hb hdead _ =>
    cases hr.symm.trans hb
    rw [DecisionRow.active, hd] at hdead
    cases hdead

/-- None of the changes leaves a row without its `until`. -/
theorem RowChange.timed {before after : Option DecisionRow} (h : RowChange before after)
    (ht : ∀ r, before = some r → r.untilAt.isSome = true) : ∀ r, after = some r → r.untilAt.isSome = true := by
  intro r hr
  cases h with
  | kept ha => exact ht r (ha.symm.trans hr)
  | written ha hu _ =>
    cases ha.symm.trans hr
    exact hu
  | extended _ ha =>
    cases ha.symm.trans hr
    rfl
  | swept _ _ ha => cases ha.symm.trans hr

theorem rowChange_upsert {fresh : DecisionRow} {merge : DecisionRow → DecisionRow} {hm : ∀ r, (merge r).key = r.key}
    (hu : fresh.untilAt.isSome = true) (hd : fresh.deletedAt = none)
    (hmu : ∀ r, (merge r).untilAt.isSome = true) (hmd : ∀ r, (merge r).deletedAt = none) :
    RowChange (db.decisions.find k) ((db.upsertDecision fresh merge hm).decisions.find k) := by
  rw [Db.find_upsertDecision]
  by_cases hk : k = fresh.key
  · rw [if_pos hk]
    cases db.decisions.find k with
    | none => exact .written rfl hu hd
    | some r => exact .written rfl (hmu r) (hmd r)
  · rw [if_neg hk]
    exact .kept rfl

/-- An accepted request either waits in the queue or is written at once. -/
theorem externalDecisions_cases {token : Option Token} {body : ExternalBody} {reply : ExternalReply}
    (h : externalDecisions T db token body now = .ok (reply,db')) :
    (reply.approvalQueueId = some (db.approvalQueueSeq + 1) ∧
      db' = queueDecision db reply.ip reply.scope reply.scenario "external" reply.originSource none now) ∨
    (reply.approvalQueueId = none ∧ ∃ lapiId duration,
      let row := externalRow reply.originSource lapiId reply.ip reply.scope reply.scenario duration reply.untilAt (isoformat now)
      db' = db.upsertDecision row (refreshExternal row) (fun _ => rfl)) := by
  unfold externalDecisions at h
  cases token with
  | none => cases h
  | some tok =>
    dsimp only at h
    split at h
    · cases h
    · split at h
      · cases h
      · split at h
        · cases h
        · split at h
          · cases h
          · split at h
            · cases h
              exact Or.inl ⟨rfl,rfl⟩
            · cases h
              exact Or.inr ⟨rfl,_,_,rfl⟩

theorem rowChange_externalDecisions {token : Option Token} {body : ExternalBody} {reply : ExternalReply}
    (h : externalDecisions T db token body now = .ok (reply,db')) :
    RowChange (db.decisions.find k) (db'.decisions.find k) := by
  obtain ⟨_,rfl⟩ | ⟨_,_,_,rfl⟩ := externalDecisions_cases h
  · exact .kept rfl
  · exact rowChange_upsert rfl rfl (fun _ => rfl) (fun _ => rfl)

/-- Only the status and the note of escalations change, and an approval also writes the row of the ASN. -/
theorem asnDecide_cases {id : ℕ} {decision decidedBy note : String} {reply : AsnReply}
    (h : asnDecide db id decision decidedBy note now = .ok (reply,db')) :
    ∃ escalations, db' = { db with asnEscalations := escalations } ∨ ∃ lapiId untilAt,
      let row := asnRow reply.asn lapiId untilAt (isoformat now)
      db' = Db.upsertDecision { db with asnEscalations := escalations } row (refreshAsn row) (fun _ => rfl) := by
  unfold asnDecide at h
  dsimp only at h
  split at h
  · split at h
    · cases h
    · cases h
      exact ⟨_,Or.inr ⟨_,_,rfl⟩⟩
  · split at h
    · split at h
      · cases h
      · cases h
        exact ⟨_,Or.inl rfl⟩
    · cases h

theorem rowChange_asnDecide {id : ℕ} {decision decidedBy note : String} {reply : AsnReply}
    (h : asnDecide db id decision decidedBy note now = .ok (reply,db')) :
    RowChange (db.decisions.find k) (db'.decisions.find k) := by
  obtain ⟨escalations,rfl | ⟨_,_,rfl⟩⟩ := asnDecide_cases h
  · exact .kept rfl
  · change RowChange (Db.decisions { db with asnEscalations := escalations } |>.find k) _
    exact rowChange_upsert rfl rfl (fun _ => rfl) (fun _ => rfl)

theorem rowChange_bulkExtend {ips hours : Option String} :
    RowChange (db.decisions.find k) ((bulkExtend T db ips hours now).decisions.find k) := by
  have hfind : (bulkExtend T db ips hours now).decisions.find k = _ :=
    Db.find_updateDecisions db (fun r => r.value ∈ splitIps ips ∧ r.active)
      (extendRow (isoformat (now + (extendHours T hours).toNat * hour))) (fun _ => rfl) k
  rw [hfind]
  cases hf : db.decisions.find k with
  | none => exact .kept rfl
  | some r =>
    rw [Option.map_some]
    split
    · exact .extended rfl rfl
    · exact .kept rfl

theorem find_deleteBatch (cutoff size : ℕ) : (deleteBatch db cutoff size).decisions.find k = db.decisions.find k ∨
    ∃ r, db.decisions.find k = some r ∧ r.active = false ∧ (deleteBatch db cutoff size).decisions.find k = none := by
  unfold deleteBatch
  dsimp only
  rw [KeyedTable.find_remove]
  cases hf : db.decisions.find k with
  | none => exact Or.inl rfl
  | some r =>
    cases ha : r.active with
    | true => simp [Option.filter_some, ha]
    | false =>
      rw [Option.filter_some]
      split
      · exact Or.inl rfl
      · exact Or.inr ⟨r,rfl,ha,rfl⟩

theorem rowChange_prune {rounds : ℕ} : RowChange (db.decisions.find k) ((prune T db rounds).decisions.find k) := by
  unfold prune
  split
  · exact .kept rfl
  · split
    · exact .kept rfl
    · next cutoff _ =>
      induction rounds with
      | zero => exact .kept rfl
      | succ rounds ih =>
        rw [Function.iterate_succ_apply']
        rcases find_deleteBatch (k := k) cutoff _ with hkeep | ⟨r,hr,hdead,hnone⟩
        · rwa [hkeep]
        · -- a tombstone that an earlier batch kept
          cases ih with
          | kept ha => exact .swept (ha.symm.trans hr) hdead hnone
          | written ha _ hd =>
            cases ha.symm.trans hr
            rw [DecisionRow.active, hd] at hdead
            cases hdead
          | extended hb ha =>
            cases ha.symm.trans hr
            exact .swept hb hdead hnone
          | swept hb hd _ => exact .swept hb hd hnone

end
end Protek.Policy
