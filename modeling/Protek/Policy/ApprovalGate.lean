import Protek.Policy.ApprovalQueue

/-! # Does the approval gate hold

The cycle queues a decision for each value and scope while the queue is read by
value, and a rejection withdraws an approval through a whitelist rule that only bare
addresses can have.
-/
namespace Protek.Policy
open Foundation Foundation.PyText Foundation.IpAddress Foundation.Clock Protek.Store Protek.Mirror

/-- The values of the pending rows that cycles queued: these carry a decision's id. -/
def pendingValues (db : Db) : List String :=
  (db.approvalQueue.filter (fun q => q.status = .pending ∧ q.decisionId.isSome)).map QueueRow.ip

/-- No value has two pending rows from cycles. -/
def PendingOnce (db : Db) : Prop := (pendingValues db).Nodup

/-- What a step decided about a value. -/
def decisionOn (v : String) (t : Transition Db QueueEvent) : Option QueueStatus :=
  match t.label.op.decided with
  | none => none
  | some (qid,status) => if t.before.approvalQueue.any (fun q => q.id = qid ∧ q.ip = v) then some status else none

def lastDecision (ts : List (Transition Db QueueEvent)) (v : String) : Option QueueStatus :=
  ts.reverse.findSome? (decisionOn v)

section
variable (U : CaseMap) (T : CharTable)

/-- The values that a cycle would queue have their active rows in one scope each. -/
def OneScope (db : Db) (now : Instant) : Prop :=
  ∀ r ∈ db.activeRows, ∀ r' ∈ db.activeRows, r'.value = r.value → qualifies T db now r.value = true →
    whitelisted U db now r.value = none → queued db r.value = false → r'.scope = r.scope

end

/-- A text that `add_whitelist` takes as an address and stores as it is. -/
def BareAddress (v : String) : Prop := strip v = v ∧ (ipAddress v).isSome = true

/-- A rejected value is a bare address, or the rejected row was the only approved one of its value. -/
def Withdraws (t : Transition Db QueueEvent) : Prop :=
  ∀ qid, t.label.op.decided = some (qid,.rejected) → ∀ q ∈ t.before.approvalQueue, q.id = qid →
    BareAddress q.ip ∨ ∀ q' ∈ t.before.approvalQueue, q'.ip = q.ip → q'.status = .approved → q'.id = qid

theorem lastDecision_concat (ts : List (Transition Db QueueEvent)) (t : Transition Db QueueEvent) (v : String) :
    lastDecision (ts ++ [t]) v = (decisionOn v t).or (lastDecision ts v) := by
  rw [lastDecision, List.reverse_append, List.reverse_singleton, List.singleton_append, List.findSome?_cons]
  cases decisionOn v t <;> rfl

/-! ## Pending rows -/

/-- When pairs do not repeat, their first parts do not either exactly if each comes with one second part. -/
theorem nodup_map_iff_of_pairs {α β γ : Type*} {f : α → β} {g : α → γ} {l : List α}
    (hn : (l.map (fun a => (f a,g a))).Nodup) :
    (l.map f).Nodup ↔ ∀ a ∈ l, ∀ b ∈ l, f b = f a → g b = g a := by
  constructor
  · intro h a ha b hb hf
    rw [List.inj_on_of_nodup_map h hb ha hf]
  · intro h
    refine (List.Nodup.of_map _ hn).map_on (fun a ha b hb hf => ?_)
    exact List.inj_on_of_nodup_map hn ha hb (by rw [hf, h b hb a ha hf])

section
variable {U : CaseMap} {T : CharTable} {db db' s : Db} {now : Instant}

theorem mem_toQueue {d : DesiredRow} : d ∈ toQueue U T db now ↔
    d ∈ selectRows T db now ∧ whitelisted U db now d.value = none ∧ queued db d.value = false := by
  rw [toQueue, List.mem_filter, decide_eq_true_iff]

/-- The pairs that a cycle queues are those of the rows that it may queue. -/
theorem exists_toQueue {v scope : String} : (∃ d ∈ toQueue U T db now, d.value = v ∧ d.scope = scope) ↔
    (∃ r ∈ db.activeRows, r.value = v ∧ r.scope = scope) ∧ qualifies T db now v = true ∧
      whitelisted U db now v = none ∧ queued db v = false := by
  have hkeys := @OrderedDict.mem_firstKeys _ _
    ((db.activeRows.filter (fun r => qualifies T db now r.value)).map (fun r => (r.value,r.scope))) (v,scope)
  rw [← map_key_selectRows, List.mem_map, List.mem_map] at hkeys
  simp only [Prod.mk.injEq, List.mem_filter] at hkeys
  constructor
  · rintro ⟨d,hd,rfl,rfl⟩
    obtain ⟨hsel,hw⟩ := mem_toQueue.mp hd
    obtain ⟨r,⟨hr,hq⟩,hv,hs⟩ := hkeys.mp ⟨d,hsel,rfl,rfl⟩
    exact ⟨⟨r,hr,hv,hs⟩,hv ▸ hq,hw⟩
  · rintro ⟨⟨r,hr,rfl,rfl⟩,hq,hw⟩
    obtain ⟨d,hsel,hv,hs⟩ := hkeys.mpr ⟨r,⟨hr,hq⟩,rfl,rfl⟩
    exact ⟨d,mem_toQueue.mpr ⟨hsel,by rwa [hv]⟩,hv,hs⟩

theorem nodup_values_toQueue : ((toQueue U T db now).map DesiredRow.value).Nodup ↔ OneScope U T db now := by
  have hpairs : ((toQueue U T db now).map (fun d => (d.value,d.scope))).Nodup := by
    refine List.Nodup.sublist (List.filter_sublist.map _) ?_
    rw [map_key_selectRows]
    exact OrderedDict.firstKeys_nodup _
  rw [nodup_map_iff_of_pairs hpairs]
  constructor
  · intro h r hr r' hr' hv hq hw hno
    obtain ⟨d,hd,hdv,hds⟩ := exists_toQueue.mpr ⟨⟨r,hr,rfl,rfl⟩,hq,hw,hno⟩
    obtain ⟨d',hd',hdv',hds'⟩ := exists_toQueue.mpr ⟨⟨r',hr',hv,rfl⟩,hq,hw,hno⟩
    rw [← hds, ← hds']
    exact h d hd d' hd' (hdv'.trans hdv.symm)
  · intro h d hd d' hd' hv
    obtain ⟨⟨r,hr,hrv,hrs⟩,hq,hw,hno⟩ := exists_toQueue.mp ⟨d,hd,rfl,rfl⟩
    obtain ⟨⟨r',hr',hrv',hrs'⟩,_⟩ := exists_toQueue.mp ⟨d',hd',rfl,rfl⟩
    rw [← hrs, ← hrs']
    exact h r hr r' hr' (by rw [hrv, hrv', hv]) (hrv ▸ hq) (hrv ▸ hw) (hrv ▸ hno)

theorem pendingValues_append {fresh : List QueueRow} (h : Appended fresh db db') :
    pendingValues db' = pendingValues db ++
      (fresh.filter (fun q => q.status = .pending ∧ q.decisionId.isSome)).map QueueRow.ip := by
  rw [pendingValues, h.queue, List.filter_append, List.map_append]
  rfl

theorem queued_of_mem_pendingValues {v : String} (h : v ∈ pendingValues db) : queued db v = true := by
  obtain ⟨q,hq,rfl⟩ := List.mem_map.mp h
  exact List.any_eq_true.mpr ⟨q,(List.mem_filter.mp hq).1,by simp⟩

/-- In semi-auto mode a cycle keeps pending rows apart exactly when it finds one scope for each value. -/
theorem pendingOnce_cycle_iff (hmode : approvalRequired db.settings = true) (hp : PendingOnce db) :
    PendingOnce (desiredFromDb U T db now).2 ↔ OneScope U T db now := by
  have happ := @appended_cycle U T db now
  rw [if_pos hmode] at happ
  have hall : (queueRows now db.approvalQueueSeq (toQueue U T db now)).filter
      (fun q => q.status = .pending ∧ q.decisionId.isSome) = queueRows now db.approvalQueueSeq (toQueue U T db now) :=
    List.filter_eq_self.mpr (fun q hq => decide_eq_true (mem_queueRows hq))
  rw [PendingOnce, pendingValues_append happ, hall, map_ip_queueRows, ← nodup_values_toQueue, List.nodup_append]
  refine ⟨fun h => h.2.1,fun h => ⟨hp,h,?_⟩⟩
  rintro v hv w hw rfl
  obtain ⟨d,hd,rfl⟩ := List.mem_map.mp hw
  have hno := (mem_toQueue.mp hd).2.2
  rw [queued_of_mem_pendingValues hv] at hno
  cases hno

theorem pendingValues_decided {e : QueueEvent} {qid : ℕ} {status : QueueStatus} (h : QueueStep U T db e db')
    (hd : e.op.decided = some (qid,status)) : (pendingValues db').Sublist (pendingValues db) := by
  have hne : status ≠ .pending := by
    rcases QueueOp.decided_cases hd with rfl | rfl <;> decide
  rw [pendingValues, pendingValues, (h.queue_of_decided hd).1]
  induction db.approvalQueue with
  | nil => exact List.Sublist.refl _
  | cons q rest ih =>
    rw [List.map_cons, markRow]
    split
    · -- the marked row is no longer pending
      rw [List.filter_cons_of_neg (by simp [hne])]
      exact ih.trans (List.Sublist.map _ (List.Sublist.filter _ (List.sublist_cons_self q rest)))
    · rw [List.filter_cons, List.filter_cons]
      split
      · exact ih.cons_cons _
      · exact ih

/-- A step in semi-auto mode keeps pending rows apart exactly when it is no cycle that
finds two scopes of a value to queue. -/
theorem pendingOnce_step_iff {e : QueueEvent} (h : QueueStep U T db e db')
    (hmode : approvalRequired db.settings = true) (hp : PendingOnce db) :
    PendingOnce db' ↔ (e.op = .run .cycle → OneScope U T db e.now) := by
  by_cases hop : e.op = .run .cycle
  · rcases e with ⟨now,op⟩
    cases hop
    change db' = _ at h
    rw [h]
    exact (pendingOnce_cycle_iff hmode hp).trans (by simp)
  · refine iff_of_true ?_ (fun he => absurd he hop)
    cases hd : e.op.decided with
    | some p => exact hp.sublist (pendingValues_decided h hd)
    | none =>
      obtain ⟨fresh,happ,hid⟩ := h.appended hd
      have hnone : fresh.filter (fun q => q.status = .pending ∧ q.decisionId.isSome) = [] := by
        refine List.filter_eq_nil_iff.mpr (fun q hq => ?_)
        simp [hid hop q hq]
      rw [PendingOnce, pendingValues_append happ, hnone, List.map_nil, List.append_nil]
      exact hp

/-! ## Withdrawn approvals -/

/-- A permanent `ip` rule spells the value. -/
def Spared (db : Db) (v : String) : Prop := ∃ w ∈ db.whitelist.rows, w.key = (.ip,v) ∧ w.expiresAt = none

theorem Spared.whitelisted {v : String} (h : Spared db v) : (whitelisted U db now v).isSome = true := by
  obtain ⟨w,hw,hkey,hexp⟩ := h
  have hkind : w.kind = .ip := congrArg Prod.fst hkey
  have hvalue : w.value = v := congrArg Prod.snd hkey
  refine matchesWhitelist_isSome.mpr ⟨w,?_,?_⟩
  · refine (List.mem_insertionSort _).mpr (List.mem_filter.mpr ⟨hw,?_⟩)
    simp [hexp]
  · simp [ruleMatches, hkind, hvalue]

theorem Spared.congr {v : String} (h : Spared db v) (hw : db'.whitelist = db.whitelist) : Spared db' v := by
  rw [Spared, hw]
  exact h

theorem Spared.whitelistRejected {qid : ℕ} {v : String} (h : Spared db v) :
    Spared (whitelistRejected U T db qid now) v := by
  unfold Policy.whitelistRejected
  split
  · exact h
  · next row _ =>
    split
    · next hadd =>
      obtain ⟨p,_,rfl⟩ := addWhitelist_eq_ok.mp hadd
      obtain ⟨w,hw,hkey,hexp⟩ := h
      by_cases hp : p = (.ip,v)
      · exact ⟨_,mem_replaceRule.mpr (Or.inr rfl),hp,rfl⟩
      · exact ⟨w,mem_replaceRule.mpr (Or.inl ⟨hw,fun he => hp (he.symm.trans hkey)⟩),hkey,hexp⟩
    · exact h

theorem BareAddress.checkWhitelist {v : String} (h : BareAddress v) : checkWhitelist U T "ip" v = .ok (.ip,v) := by
  rw [Policy.checkWhitelist]
  simp only [h.1, if_true, h.2]

theorem spared_of_bareAddress {qid : ℕ} {q : QueueRow} (hq : db.approvalQueue.find? (fun q => q.id = qid) = some q)
    (hb : BareAddress q.ip) : Spared (whitelistRejected U T db qid now) q.ip := by
  rw [whitelistRejected, hq]
  dsimp only
  rw [(@addWhitelist_eq_ok U T db _ "ip" q.ip "auto: rejected from approval queue" none now).mpr
    ⟨_,hb.checkWhitelist,rfl⟩]
  exact ⟨_,mem_replaceRule.mpr (Or.inr rfl),rfl,rfl⟩

/-- The ids of the queue do not repeat, and the sequence is past them. -/
structure QueueIds (db : Db) : Prop where
  nodup : (db.approvalQueue.map QueueRow.id).Nodup
  le_seq : ∀ q ∈ db.approvalQueue, q.id ≤ db.approvalQueueSeq

theorem Appended.queueIds {fresh : List QueueRow} (h : Appended fresh db db') (hi : QueueIds db) : QueueIds db' := by
  have hnew : ∀ q ∈ fresh, db.approvalQueueSeq < q.id ∧ q.id ≤ db'.approvalQueueSeq := by
    intro q hq
    have hmem : q.id ∈ List.range' (db.approvalQueueSeq + 1) fresh.length := h.ids ▸ List.mem_map_of_mem hq
    have hseq := h.seq
    rw [List.mem_range'_1] at hmem
    omega
  constructor
  · rw [h.queue, List.map_append, List.nodup_append]
    refine ⟨hi.nodup,h.ids ▸ List.nodup_range',?_⟩
    rintro a ha b hb rfl
    obtain ⟨q,hq,rfl⟩ := List.mem_map.mp ha
    obtain ⟨q',hq',heq⟩ := List.mem_map.mp hb
    have hold := hi.le_seq q hq
    have hlt := (hnew q' hq').1
    omega
  · intro q hq
    rw [h.queue, List.mem_append] at hq
    have hseq := h.seq
    rcases hq with hq | hq
    · have hold := hi.le_seq q hq
      omega
    · exact (hnew q hq).2

@[simp] theorem markRow_id (qid : ℕ) (status : QueueStatus) (q : QueueRow) : (markRow qid status q).id = q.id := by
  unfold markRow
  split <;> rfl

@[simp] theorem markRow_ip (qid : ℕ) (status : QueueStatus) (q : QueueRow) : (markRow qid status q).ip = q.ip := by
  unfold markRow
  split <;> rfl

theorem QueueStep.queueIds {e : QueueEvent} (h : QueueStep U T db e db') (hi : QueueIds db) : QueueIds db' := by
  cases hd : e.op.decided with
  | none =>
    obtain ⟨fresh,happ,_⟩ := h.appended hd
    exact happ.queueIds hi
  | some p =>
    obtain ⟨hq,hs⟩ := h.queue_of_decided hd
    constructor
    · rw [hq, List.map_map]
      simpa [Function.comp_def] using hi.nodup
    · intro q hmem
      rw [hq] at hmem
      obtain ⟨q',hq',rfl⟩ := List.mem_map.mp hmem
      rw [hs, markRow_id]
      exact hi.le_seq q' hq'

/-- A decision on another value, or none, leaves the approvals of a value as they were. -/
theorem approved_of_not_decided {t : Transition Db QueueEvent} {v : String} (h : QueueStep U T t.before t.label t.after)
    (hno : decisionOn v t = none) : approved t.after v = approved t.before v := by
  cases hd : t.label.op.decided with
  | none =>
    obtain ⟨fresh,happ,_⟩ := h.appended hd
    have hfresh : fresh.any (fun q => decide (q.status = .approved ∧ q.ip = v)) = false := by
      refine List.any_eq_false.mpr (fun q hq => ?_)
      simp [happ.pending q hq]
    rw [approved, happ.queue, List.any_append, hfresh, Bool.or_false]
    rfl
  | some p =>
    obtain ⟨qid,status⟩ := p
    have hother : ∀ q ∈ t.before.approvalQueue, q.id = qid → q.ip ≠ v := by
      simpa [decisionOn, hd] using hno
    rw [approved, (h.queue_of_decided hd).1, List.any_map, approved, Bool.eq_iff_iff, List.any_eq_true, List.any_eq_true]
    refine exists_congr (fun q => and_congr_right (fun hq => ?_))
    by_cases hid : q.id = qid
    · simp [hother q hq hid]
    · simp [markRow, hid]

theorem QueueStep.spared {e : QueueEvent} {v : String} (h : QueueStep U T db e db') (hs : Spared db v) : Spared db' v := by
  cases hd : e.op.decided with
  | none =>
    obtain ⟨fresh,happ,_⟩ := h.appended hd
    exact hs.congr happ.whitelist
  | some p =>
    have hmarked : Spared { db with approvalQueue := db.approvalQueue.map (markRow p.1 p.2) } v := hs
    rw [h.decided hd]
    split
    · exact hmarked.whitelistRejected
    · exact hmarked

/-- After a rejection that withdraws, the value is spared or has no approved row. -/
theorem withdrawn_of_rejected {t : Transition Db QueueEvent} {v : String} {qid : ℕ} {q : QueueRow}
    (h : QueueStep U T t.before t.label t.after) (hi : QueueIds t.before) (hw : Withdraws t)
    (hd : t.label.op.decided = some (qid,.rejected)) (hq : q ∈ t.before.approvalQueue) (hid : q.id = qid) (hv : q.ip = v) :
    approved t.after v = false ∨ Spared t.after v := by
  subst hv
  rcases hw qid hd q hq hid with hbare | hlast
  · right
    have hfind : (t.before.approvalQueue.map (markRow qid .rejected)).find? (fun q => q.id = qid) =
        some (markRow qid .rejected q) := by
      have hn := (h.queueIds hi).nodup
      rw [(h.queue_of_decided hd).1] at hn
      exact (@KeyedTable.find_eq_some ℕ QueueRow _ QueueRow.id ⟨_,hn⟩ qid _).mpr
        ⟨List.mem_map_of_mem hq,(markRow_id _ _ q).trans hid⟩
    rw [h.decided hd, if_pos rfl]
    have hs := @spared_of_bareAddress U T { t.before with approvalQueue := t.before.approvalQueue.map (markRow qid .rejected) }
      t.label.now qid _ hfind
    rw [markRow_ip] at hs
    exact hs hbare
  · left
    rw [approved, (h.queue_of_decided hd).1]
    refine List.any_eq_false.mpr (fun q' hq' hpass => ?_)
    obtain ⟨q₀,hq₀,rfl⟩ := List.mem_map.mp hq'
    simp only [decide_eq_true_eq, markRow_ip] at hpass
    by_cases hid₀ : q₀.id = qid
    · simp [markRow, hid₀] at hpass
    · simp only [markRow, if_neg hid₀] at hpass
      exact hid₀ (hlast q₀ hq₀ hpass.2 hpass.1)

/-- Whoever is approved without being spared was approved by the last decision. -/
theorem gate_of_trace {ts : List (Transition Db QueueEvent)} (h : Trace (QueueStep U T) db ts s)
    (hempty : db.approvalQueue = []) (hw : ∀ t ∈ ts, Withdraws t) :
    QueueIds s ∧ ∀ v, lastDecision ts v = some .approved ∨ approved s v = false ∨ Spared s v := by
  induction h with
  | nil => exact ⟨⟨by simp [hempty],by simp [hempty]⟩,fun v => Or.inr (Or.inl (by simp [approved, hempty]))⟩
  | @snoc ts s u e h hs ih =>
    obtain ⟨hi,hgate⟩ := ih (fun t ht => hw t (List.mem_append_left _ ht))
    refine ⟨hs.queueIds hi,fun v => ?_⟩
    rw [lastDecision_concat]
    cases hon : decisionOn v ⟨s,e,u⟩ with
    | none =>
      rw [Option.none_or, @approved_of_not_decided U T ⟨s,e,u⟩ v hs hon]
      exact (hgate v).imp_right (fun h => h.imp_right hs.spared)
    | some status =>
      rw [Option.some_or]
      unfold decisionOn at hon
      split at hon
      · cases hon
      · next qid st hd =>
        split at hon
        · next hany =>
          cases hon
          obtain ⟨q,hq,hrow⟩ := List.any_eq_true.mp hany
          obtain ⟨hid,hv⟩ : q.id = qid ∧ q.ip = v := by simpa using hrow
          rcases QueueOp.decided_cases hd with rfl | rfl
          · exact Or.inl rfl
          · exact Or.inr (@withdrawn_of_rejected U T ⟨s,e,u⟩ v qid q hs hi (hw _ (by simp)) hd hq hid hv)
        · cases hon

end

/-- Along a run in semi-auto mode pending rows stay apart exactly when every cycle finds one
scope for each value that it queues, and a listed value was approved last as long as every
rejection was of a bare address or of the only approved row of its value. -/
theorem approval_gate_holds (U : CaseMap) (T : CharTable) {db s : Db} {ts : List (Transition Db QueueEvent)}
    (h : Trace (QueueStep U T) db ts s) (hempty : db.approvalQueue = [])
    (hmode : ∀ t ∈ ts, approvalRequired t.before.settings = true) :
    ((∀ t ∈ ts, PendingOnce t.after) ↔
      ∀ t ∈ ts, t.label.op = .run .cycle → OneScope U T t.before t.label.now) ∧
    ∀ pre t post, ts = pre ++ t :: post → t.label.op = .run .cycle → (∀ u ∈ pre, Withdraws u) →
      ∀ d ∈ (desiredFromDb U T t.before t.label.now).1, lastDecision pre d.value = some .approved := by
  have hinit : PendingOnce db := by simp [PendingOnce, pendingValues, hempty]
  constructor
  · exact h.forall_iff (I := PendingOnce) hinit hmode
      (fun t hs hm hC hp => (pendingOnce_step_iff hs hm hp).mpr hC) (fun t hs hm hp => pendingOnce_step_iff hs hm hp)
  · rintro pre t post rfl hop hw d hd
    have hm := hmode t (List.mem_append_right _ List.mem_cons_self)
    obtain ⟨_,⟨_,happroved⟩,hnone⟩ := mem_desiredFromDb.mp ⟨d,hd,rfl⟩
    rcases (gate_of_trace h.take hempty hw).2 d.value with hlast | hno | hspared
    · exact hlast
    · rw [happroved hm] at hno
      cases hno
    · have hsome := @Spared.whitelisted U t.before t.label.now _ hspared
      rw [hnone] at hsome
      cases hsome

/-! ## A range in two scopes -/

def semiAuto : Db := Db.empty.setSetting "settings.approval_required" "1"

def rangeDecision (id : ℤ) (scope : String) : LapiDecision := ⟨id,"198.51.100.0/24",scope,"ban","ssh-bf","","",none⟩

def pullRange : QueueEvent := ⟨0,.run (.bootstrap "capi" [rangeDecision 1 "Range",rangeDecision 2 "Ip"])⟩

def cycleOf (db : Db) (now : Instant) : Transition Db QueueEvent := ⟨db,⟨now,.run .cycle⟩,perform .ascii .ascii db ⟨now,.cycle⟩⟩

def decideOf (db : Db) (qid : ℕ) (decision : String) : Transition Db QueueEvent :=
  ⟨db,⟨hour,.approvalsDecide qid (some decision)⟩,
    match approvalsDecide .ascii .ascii db qid (some decision) hour with
    | .ok (_,after) => after
    | .error _ => db⟩

def rangePulled : Db := perform .ascii .ascii semiAuto ⟨0,.bootstrap "capi" [rangeDecision 1 "Range",rangeDecision 2 "Ip"]⟩

def rangeQueued : Db := (cycleOf rangePulled 0).after

def rangeApproved : Db := (decideOf (decideOf rangeQueued 1 "approved").after 2 "approved").after

def rangeRejected : Db := (decideOf rangeApproved 1 "rejected").after

def beforeCycle : List (Transition Db QueueEvent) :=
  [⟨semiAuto,pullRange,rangePulled⟩,cycleOf rangePulled 0,decideOf rangeQueued 1 "approved",
    decideOf (decideOf rangeQueued 1 "approved").after 2 "approved",decideOf rangeApproved 1 "rejected"]

def gateRun : List (Transition Db QueueEvent) := beforeCycle ++ [cycleOf rangeRejected (2 * hour)]

theorem gateRun_trace : Trace (QueueStep .ascii .ascii) semiAuto gateRun (cycleOf rangeRejected (2 * hour)).after :=
  (((((Trace.nil.snoc rfl).snoc rfl).snoc rfl).snoc rfl).snoc rfl).snoc rfl

instance (db : Db) : Decidable (PendingOnce db) := inferInstanceAs (Decidable (List.Nodup _))

theorem gateRun_mode : ∀ t ∈ gateRun, approvalRequired t.before.settings = true := by
  decide

theorem approval_gate_holds_example :
    ((∀ t ∈ gateRun, PendingOnce t.after) ↔
      ∀ t ∈ gateRun, t.label.op = .run .cycle → OneScope .ascii .ascii t.before t.label.now) ∧
    ∀ pre t post, gateRun = pre ++ t :: post → t.label.op = .run .cycle → (∀ u ∈ pre, Withdraws u) →
      ∀ d ∈ (desiredFromDb .ascii .ascii t.before t.label.now).1, lastDecision pre d.value = some .approved :=
  approval_gate_holds .ascii .ascii gateRun_trace rfl gateRun_mode

/-- The range is queued once for each scope, and stays listed after its rejection. -/
theorem approval_gate_fails :
    (Trace (QueueStep .ascii .ascii) semiAuto gateRun (cycleOf rangeRejected (2 * hour)).after ∧
      semiAuto.approvalQueue = [] ∧ ∀ t ∈ gateRun, approvalRequired t.before.settings = true) ∧
    (¬ ∀ t ∈ gateRun, PendingOnce t.after) ∧
    ¬ ∀ pre t post, gateRun = pre ++ t :: post → t.label.op = .run .cycle →
      ∀ d ∈ (desiredFromDb .ascii .ascii t.before t.label.now).1, lastDecision pre d.value = some .approved := by
  refine ⟨⟨gateRun_trace,rfl,gateRun_mode⟩,?_,?_⟩
  · intro h
    have hqueued : ¬ PendingOnce (cycleOf rangePulled 0).after := by decide
    exact hqueued (h _ (by simp [gateRun, beforeCycle]))
  · intro h
    have hlisted : ∃ d ∈ (desiredFromDb .ascii .ascii rangeRejected (2 * hour)).1, d.value = "198.51.100.0/24" := by decide
    have hlast : lastDecision beforeCycle "198.51.100.0/24" = some .rejected := by decide
    obtain ⟨d,hd,hv⟩ := hlisted
    have happroved := h beforeCycle (cycleOf rangeRejected (2 * hour)) [] rfl rfl d hd
    rw [hv, hlast] at happroved
    cases happroved

end Protek.Policy
