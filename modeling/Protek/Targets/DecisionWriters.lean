import Protek.Mirror.Apply
import Protek.Policy.Escalations
import Protek.Policy.Writers
import Protek.Targets.Synthetic

/-! # Who writes decisions

Every statement of the program on the decisions table, and what each does to the row of a key.
-/
namespace Protek.Targets.DecisionWriters
open Foundation Foundation.PyText Foundation.Clock Protek.Store Protek.Mirror Protek.Policy

/-- The statements that write decisions. -/
inductive Write
  | mirror (stmt : Stmt)
  | external (token : Option Token) (body : ExternalBody) (now : Instant)
  | asnDecide (escalationId : ℕ) (decision decidedBy note : String) (now : Instant)
  | selfTest (lapiId : ℤ) (now : Instant)
  | purgeSelfTest (lapiId : ℤ)
  | retract (p : DecisionRow → Bool) (now : Instant)
  | extend (ips hours : Option String) (now : Instant)
  | stamp (ip asn asOrg : String)
  | sweep (cutoff size : ℕ)
  | elsewhere

/-- A statement, or a change that leaves the decisions alone; `retract` stands for every UPDATE of `deleted_at`. -/
inductive Step (T : CharTable) : Db → Write → Db → Prop
  | mirror {db : Db} {s : Stmt} : Step T db (.mirror s) (exec db s)
  | external {db db' : Db} {token : Option Token} {body : ExternalBody} {now : Instant} {reply : ExternalReply}
      (h : externalDecisions T db token body now = .ok (reply,db')) : Step T db (.external token body now) db'
  | asnDecide {db db' : Db} {id : ℕ} {decision decidedBy note : String} {now : Instant} {reply : AsnReply}
      (h : asnDecide db id decision decidedBy note now = .ok (reply,db')) : Step T db (.asnDecide id decision decidedBy note now) db'
  | selfTest {db : Db} {lapiId : ℤ} {now : Instant} : Step T db (.selfTest lapiId now) (insertSynthDecision db lapiId now)
  | purgeSelfTest {db : Db} {lapiId : ℤ} : Step T db (.purgeSelfTest lapiId) (hardPurgeSynth db lapiId)
  | retract {db : Db} {p : DecisionRow → Bool} {now : Instant} : Step T db (.retract p now) (db.tombstone p (isoformat now))
  | extend {db : Db} {ips hours : Option String} {now : Instant} : Step T db (.extend ips hours now) (bulkExtend T db ips hours now)
  | stamp {db : Db} {ip asn asOrg : String} : Step T db (.stamp ip asn asOrg) (persistAsn db ip asn asOrg)
  | sweep {db : Db} {cutoff size : ℕ} : Step T db (.sweep cutoff size) (deleteBatch db cutoff size)
  | elsewhere {db db' : Db} (h : db'.decisions = db.decisions) : Step T db .elsewhere db'

/-- The key of the row that a statement brings or brings back, and the time it writes as seen. -/
def written (T : CharTable) (db : Db) : Write → Option ((String × Identity) × String)
  | .mirror (.upsertDecision name d now) => some ((name,recordedKey d),now)
  | .external token body now =>
    match externalDecisions T db token body now with
    | .ok (reply,_) =>
      if reply.approvalQueueId = none then some ((reply.originSource,reply.ip,reply.scope,reply.scenario),isoformat now) else none
    | .error _ => none
  | .asnDecide id decision decidedBy note now =>
    match asnDecide db id decision decidedBy note now with
    | .ok (reply,_) =>
      if reply.decisionId.isSome then some (("asn_detector",reply.asn,"AS","asn_detector/escalation"),isoformat now) else none
    | .error _ => none
  | .selfTest _ now => some ((SYNTH_ORIGIN,SYNTH_IP,"Ip", SYNTH_SCENARIO),isoformat now)
  | .mirror _ | .purgeSelfTest _ | .retract _ _ | .extend _ _ _ | .stamp _ _ _ | .sweep _ _ | .elsewhere => none

/-- What every other statement leaves of a row: when it was seen, and a row that has ended stays so. -/
structure Keeps (r r' : DecisionRow) : Prop where
  first : r'.firstSeenAt = r.firstSeenAt
  last : r'.lastSeenAt = r.lastSeenAt
  active : r'.deletedAt = none → r.deletedAt = none

/-- The statement brings the row of the key, with the time it carries. -/
def Writes (T : CharTable) (db : Db) (a : Write) (k : String × Identity) (db' : Db) : Prop :=
  ∃ now r', written T db a = some (k,now) ∧ db'.decisions.find k = some r' ∧ r'.lastSeenAt = now ∧
    r'.firstSeenAt = (db.decisions.find k).elim now DecisionRow.firstSeenAt

/-- The statement brings no row of the key, and what is there of it was there. -/
def Leaves (T : CharTable) (db : Db) (a : Write) (k : String × Identity) (db' : Db) : Prop :=
  (∀ now, written T db a ≠ some (k,now)) ∧ ∀ r', db'.decisions.find k = some r' → ∃ r, db.decisions.find k = some r ∧ Keeps r r'

section
variable {T : CharTable} {db db' : Db} {k : String × Identity}

theorem keeps_update {p : DecisionRow → Bool} {f : DecisionRow → DecisionRow} {hf : ∀ r, (f r).key = r.key} {r' : DecisionRow}
    (hk : ∀ r, Keeps r (f r)) (h : (db.updateDecisions p f hf).decisions.find k = some r') :
    ∃ r, db.decisions.find k = some r ∧ Keeps r r' := by
  rw [Db.find_updateDecisions] at h
  obtain ⟨r,hr,rfl⟩ := Option.map_eq_some_iff.mp h
  refine ⟨r,hr,?_⟩
  split
  · exact hk r
  · exact ⟨rfl,rfl,id⟩

theorem keeps_tombstone {p : DecisionRow → Bool} {now : String} {r' : DecisionRow} (h : (db.tombstone p now).decisions.find k = some r') :
    ∃ r, db.decisions.find k = some r ∧ Keeps r r' :=
  @keeps_update _ k p (fun r => { r with deletedAt := some now }) (fun _ => rfl) _ (fun _ => ⟨rfl,rfl,fun hdead => by cases hdead⟩) h

theorem keeps_remove {p : DecisionRow → Bool} {r' : DecisionRow}
    (h : ({ db with decisions := db.decisions.remove p } : Db).decisions.find k = some r') :
    ∃ r, db.decisions.find k = some r ∧ Keeps r r' := by
  rw [KeyedTable.find_remove] at h
  exact ⟨r',(Option.filter_eq_some_iff.mp h).1,rfl,rfl,id⟩

/-- An approval writes the row of the ASN, and a rejection writes none. -/
theorem asnDecide_written {id : ℕ} {decision decidedBy note : String} {now : Instant} {reply : AsnReply}
    (h : Policy.asnDecide db id decision decidedBy note now = .ok (reply,db')) :
    (reply.decisionId = none ∧ db'.decisions = db.decisions) ∨
    ∃ d : Db, ∃ lapiId untilAt, reply.decisionId.isSome = true ∧ d.decisions = db.decisions ∧
      db' = Db.upsertDecision d (asnRow reply.asn lapiId untilAt (isoformat now)) (refreshAsn (asnRow reply.asn lapiId untilAt (isoformat now)))
        (fun _ => rfl) := by
  unfold Policy.asnDecide at h
  dsimp only at h
  split at h
  · split at h
    · cases h
    · cases h
      let escalations := db.asnEscalations.modify (markEscalation id .approved decidedBy note (isoformat now)) markEscalation_id
      exact Or.inr ⟨{ db with asnEscalations := escalations },_,_,rfl,rfl,rfl⟩
  · split at h
    · split at h
      · cases h
      · cases h
        exact Or.inl ⟨rfl,rfl⟩
    · cases h

/-- What `find` gives of the key after an upsert that sets the times. -/
theorem find_upsert_times {fresh : DecisionRow} {merge : DecisionRow → DecisionRow} {hm : ∀ r, (merge r).key = r.key}
    (hfresh : fresh.firstSeenAt = fresh.lastSeenAt) (hfirst : ∀ r, (merge r).firstSeenAt = r.firstSeenAt)
    (hlast : ∀ r, (merge r).lastSeenAt = fresh.lastSeenAt) :
    ∃ r', (db.upsertDecision fresh merge hm).decisions.find fresh.key = some r' ∧ r'.lastSeenAt = fresh.lastSeenAt ∧
      r'.firstSeenAt = (db.decisions.find fresh.key).elim fresh.lastSeenAt DecisionRow.firstSeenAt := by
  rw [Db.find_upsertDecision, if_pos rfl]
  refine ⟨_,rfl,?_⟩
  cases db.decisions.find fresh.key with
  | none => exact ⟨rfl,hfresh⟩
  | some r => exact ⟨hlast r,hfirst r⟩

/-- A statement writes the row of a key, with the time it carries, or leaves what was there, or removes it. -/
theorem find_step {a : Write} (hs : Step T db a db') (k : String × Identity) : Writes T db a k db' ∨ Leaves T db a k db' := by
  have hupsert : ∀ (d : Db) (fresh : DecisionRow) (merge : DecisionRow → DecisionRow) (hm : ∀ r, (merge r).key = r.key),
      db' = d.upsertDecision fresh merge hm → d.decisions = db.decisions → written T db a = some (fresh.key,fresh.lastSeenAt) →
      fresh.firstSeenAt = fresh.lastSeenAt → (∀ r, (merge r).firstSeenAt = r.firstSeenAt) → (∀ r, (merge r).lastSeenAt = fresh.lastSeenAt) →
      Writes T db a k db' ∨ Leaves T db a k db' := by
    rintro d fresh merge hm rfl hd hw hfresh hfirst hlast
    unfold Writes Leaves
    rw [← hd, hw]
    by_cases hk : k = fresh.key
    · subst hk
      obtain ⟨r',hfind,htimes⟩ := @find_upsert_times d fresh merge hm hfresh hfirst hlast
      exact Or.inl ⟨fresh.lastSeenAt,r',rfl,hfind,htimes⟩
    · refine Or.inr ⟨fun now h => hk (congrArg Prod.fst (Option.some_inj.mp h)).symm,fun r' hr' => ?_⟩
      rw [Db.find_upsertDecision, if_neg hk] at hr'
      exact ⟨r',hr',rfl,rfl,id⟩
  have hkeep : written T db a = none →
      (∀ r', db'.decisions.find k = some r' → ∃ r, db.decisions.find k = some r ∧ Keeps r r') →
      Writes T db a k db' ∨ Leaves T db a k db' := by
    intro hw h
    refine Or.inr ⟨fun now hnow => ?_,h⟩
    rw [hw] at hnow
    cases hnow
  have hsame : db'.decisions = db.decisions → ∀ r', db'.decisions.find k = some r' → ∃ r, db.decisions.find k = some r ∧ Keeps r r' := by
    intro h r' hr'
    exact ⟨r',h ▸ hr',rfl,rfl,id⟩
  cases hs with
  | @mirror s =>
    cases s with
    | upsertDecision name d now =>
      exact hupsert db (freshRow name d now) (refreshRow d now) (fun _ => rfl) rfl rfl rfl rfl (fun _ => rfl) (fun _ => rfl)
    | tombstoneIdentity name i now => exact hkeep rfl fun _ => keeps_tombstone
    | tombstoneLapiId name i now => exact hkeep rfl fun _ => keeps_tombstone
    | seeIp ip name now => exact hkeep rfl (hsame rfl)
  | @external _ token body now reply h =>
    have hw : written T db (.external token body now) =
        if reply.approvalQueueId = none then some ((reply.originSource,reply.ip,reply.scope,reply.scenario),isoformat now) else none := by
      simp only [written, h]
    rcases externalDecisions_cases h with ⟨hq,hdb⟩ | ⟨hq,lapiId,duration,hdb⟩
    · refine hkeep ?_ (hsame (by rw [hdb]; rfl))
      rw [hw, hq]
      rfl
    · refine hupsert db _ _ _ hdb rfl ?_ rfl (fun _ => rfl) (fun _ => rfl)
      rw [hw, if_pos hq]
      rfl
  | @asnDecide _ id decision decidedBy note now reply h =>
    have hw : written T db (.asnDecide id decision decidedBy note now) =
        if reply.decisionId.isSome then some (("asn_detector",reply.asn,"AS","asn_detector/escalation"),isoformat now) else none := by
      simp only [written, h]
    rcases asnDecide_written h with ⟨hid,hdb⟩ | ⟨d,lapiId,untilAt,hid,hd,hdb⟩
    · refine hkeep ?_ (hsame hdb)
      rw [hw, hid]
      rfl
    · refine hupsert d _ _ _ hdb hd ?_ rfl (fun _ => rfl) (fun _ => rfl)
      rw [hw, if_pos hid]
      rfl
  | @selfTest lapiId now => exact hupsert db (synthRow lapiId now) _ _ rfl rfl rfl rfl (fun _ => rfl) (fun _ => rfl)
  | purgeSelfTest => exact hkeep rfl fun _ => keeps_remove
  | retract => exact hkeep rfl fun _ => keeps_tombstone
  | extend => exact hkeep rfl fun _ => keeps_update (fun _ => ⟨rfl,rfl,id⟩)
  | @stamp ip asn asOrg => exact hkeep rfl fun _ => @keeps_update _ k _ _ (stamp_key asn asOrg) _ (fun _ => ⟨rfl,rfl,id⟩)
  | sweep => exact hkeep rfl fun _ => keeps_remove
  | elsewhere h => exact hkeep rfl (hsame h)

/-- An active row was brought by the statement, or was active before it. -/
theorem activeRows_step {a : Write} (hs : Step T db a db') {r : DecisionRow} (hr : r ∈ db'.activeRows) :
    (∃ now, written T db a = some (r.key,now)) ∨ ∃ q ∈ db.activeRows, q.key = r.key := by
  obtain ⟨hmem,hact⟩ := Db.mem_activeRows.mp hr
  rcases find_step hs r.key with ⟨now,_,hw,-⟩ | ⟨-,hleaves⟩
  · exact Or.inl ⟨now,hw⟩
  · obtain ⟨q,hq,hkeeps⟩ := hleaves r (KeyedTable.find_eq_some.mpr ⟨hmem,rfl⟩)
    obtain ⟨hqmem,hkey⟩ := KeyedTable.find_eq_some.mp hq
    exact Or.inr ⟨q,Db.mem_activeRows.mpr ⟨hqmem,hkeeps.active hact⟩,hkey⟩

end
end Protek.Targets.DecisionWriters
