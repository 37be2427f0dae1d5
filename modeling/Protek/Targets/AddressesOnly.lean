import Protek.Federation.Unban
import Protek.Foundation.AddressText
import Protek.Policy.Escalations
import Protek.Targets.EntryCap

/-! # What a target is asked to list

The pulls bring addresses. An approved escalation brings an ASN, in a row of scope `AS`;
the reader of the decisions groups by scope and takes every scope, and the diff takes any
text for an address.
-/
namespace Protek.Targets.AddressesOnly
open Foundation Foundation.PyText Foundation.IpAddress Foundation.Clock Protek.Store Protek.Mirror Protek.Policy Protek.Diff
  Protek.Targets

/-- An address or a CIDR, white space around it aside, as the adapters read it. -/
def ValidAddress (v : String) : Prop := (ipNetwork (strip v)).isSome = true

/-- A decision of a LAPI on a valid address or range. -/
def ValidBan (d : LapiDecision) : Prop := d.inScope = true ∧ ValidAddress d.value

inductive Event
  | bootstrap (name : String) (decisions : List LapiDecision) (now : Instant)
  | streamApply (name : String) (new deleted : List LapiDecision) (now : Instant)
  | persistAsn (ip field asOrg : String)
  | evaluate (now : Instant)
  | decide (escalationId : ℕ) (decision decidedBy note : String) (now : Instant)
  | cycle (now : Instant)

section
variable (U : CaseMap) (T : CharTable)

def afterEvaluate (db : Db) (now : Instant) : Db :=
  match asnEvaluate T db now with
  | some (_,db') => db'
  | none => db

def afterDecide (db : Db) (escalationId : ℕ) (decision decidedBy note : String) (now : Instant) : Db :=
  match asnDecide db escalationId decision decidedBy note now with
  | .ok (_,db') => db'
  | .error _ => db

/-- A pull that fails has executed the first of its statements. -/
inductive Step : Db → Event → Db → Prop
  | bootstrap {db : Db} {name : String} {decisions : List LapiDecision} {now : Instant} {stmts : List Stmt}
      (hvalid : ∀ d ∈ decisions, ValidBan d) (hpre : stmts <+: bootstrapStmts name decisions (isoformat now) db) :
      Step db (.bootstrap name decisions now) (execAll db stmts)
  | streamApply {db : Db} {name : String} {new deleted : List LapiDecision} {now : Instant} {stmts : List Stmt}
      (hvalid : ∀ d ∈ new, ValidBan d) (hpre : stmts <+: streamStmts name new deleted (isoformat now)) :
      Step db (.streamApply name new deleted now) (execAll db stmts)
  | persistAsn {db : Db} {ip field asOrg : String} :
      Step db (.persistAsn ip field asOrg) (persistAsn db ip (cymruAsn field) asOrg)
  | evaluate {db : Db} {now : Instant} : Step db (.evaluate now) (afterEvaluate T db now)
  | decide {db : Db} {id : ℕ} {decision decidedBy note : String} {now : Instant} :
      Step db (.decide id decision decidedBy note now) (afterDecide db id decision decidedBy note now)
  | cycle {db : Db} {now : Instant} : Step db (.cycle now) (desiredFromDb U T db now).2

variable (compile : Compile) (reputation : BulkComputeForMin)

/-- The list that a worker computes for a target, given the entries that it read. -/
def toAdd (db : Db) (now : Instant) (filters : TargetFilters) (current : List Entry) : List (String × String) :=
  (reconcile U ((filterDesiredForBouncer compile reputation filters (desiredFromDb U T db now).1).map decisionOf) current).toAdd

def OnlyAddresses (db : Db) (now : Instant) : Prop :=
  ∀ (filters : TargetFilters) (current : List Entry), ∀ p ∈ toAdd U T compile reputation db now filters current, ValidAddress p.1

/-- The ASNs that stand in active rows are seen by too few sources, or wait for an approval, or are whitelisted. -/
def AsnsWithheld (db : Db) (now : Instant) : Prop :=
  ∀ r ∈ db.activeRows, r.scope = "AS" → Eligible T db now r.value → (whitelisted U db now r.value).isSome = true

end

/-! ## Rows of addresses and rows of ASNs -/

def IsAsn (s : String) : Prop := ∃ number, s = "AS" ++ number

/-- A row of scope `AS` is about an ASN, any other about an address; the stamp is an ASN. -/
structure RowTracked (r : DecisionRow) : Prop where
  asn : r.scope = "AS" → IsAsn r.value
  address : r.scope ≠ "AS" → ValidAddress r.value
  stamp : r.asn = "" ∨ IsAsn r.asn

structure Tracked (db : Db) : Prop where
  rows : ∀ r ∈ db.decisions.rows, RowTracked r
  escalations : ∀ e ∈ db.asnEscalations.rows, IsAsn e.asn

theorem tracked_empty : Tracked Db.empty := ⟨by simp [Db.empty, KeyedTable.empty],by simp [Db.empty, KeyedTable.empty]⟩

/-- No ASN is an address. -/
theorem IsAsn.not_validAddress {s : String} (h : IsAsn s) : ¬ ValidAddress s := by
  obtain ⟨number,rfl⟩ := h
  have hs : ("AS" ++ number).toList = 'A' :: 'S' :: number.toList := by simp
  obtain ⟨rest,hstrip⟩ := toList_strip_cons hs (by decide) (by decide)
  have hletter : ¬ ('S' = ':' ∨ 'S' = '.' ∨ IsHexDigit 'S') := by
    unfold IsHexDigit
    decide
  unfold ValidAddress
  rw [ipNetwork_eq_none hstrip (by decide) (by decide) hletter]
  exact Bool.false_ne_true

theorem cymruAsn_cases (field : String) : cymruAsn field = "" ∨ IsAsn (cymruAsn field) := by
  unfold cymruAsn
  by_cases h : field = ""
  · exact Or.inl (if_pos h)
  · exact Or.inr ⟨field,if_neg h⟩

section
variable {U : CaseMap} {T : CharTable} {db : Db}

/-- An upsert keeps the law if the new row meets it and the update leaves value, scope and stamp alone. -/
theorem rows_upsert {fresh : DecisionRow} {merge : DecisionRow → DecisionRow} {hm : ∀ r, (merge r).key = r.key}
    (h : ∀ r ∈ db.decisions.rows, RowTracked r) (hfresh : ∀ id, RowTracked { fresh with id := id })
    (hmerge : ∀ r, RowTracked r → RowTracked (merge r)) : ∀ r ∈ (db.upsertDecision fresh merge hm).decisions.rows, RowTracked r := by
  intro r hr
  rcases Db.mem_upsertDecision.mp hr with ⟨hold,_⟩ | rfl
  · exact h r hold
  · cases hfind : db.decisions.find fresh.key with
    | none => exact hfresh _
    | some old => exact hmerge old (h old (KeyedTable.find_eq_some.mp hfind).1)

theorem rows_update {p : DecisionRow → Bool} {f : DecisionRow → DecisionRow} (hf : ∀ r, (f r).key = r.key)
    (h : ∀ r ∈ db.decisions.rows, RowTracked r) (hkeep : ∀ r, RowTracked r → RowTracked (f r)) :
    ∀ r ∈ (db.updateDecisions p f hf).decisions.rows, RowTracked r := by
  intro r hr
  obtain ⟨q,hq,rfl⟩ := Db.mem_updateDecisions.mp hr
  split
  · exact hkeep q (h q hq)
  · exact h q hq

theorem rows_tombstone {p : DecisionRow → Bool} {now : String} (h : ∀ r ∈ db.decisions.rows, RowTracked r) :
    ∀ r ∈ (db.tombstone p now).decisions.rows, RowTracked r := by
  unfold Db.tombstone
  exact rows_update _ h (fun _ hr => ⟨hr.asn,hr.address,hr.stamp⟩)

theorem rowTracked_freshRow {name now : String} {d : LapiDecision} (hd : ValidBan d) (id : ℕ) :
    RowTracked { freshRow name d now with id := id } := by
  obtain ⟨hscope,hvalue⟩ := hd
  refine ⟨fun has => ?_,fun _ => hvalue,Or.inl rfl⟩
  have hne : orElse (some d.scope) "Ip" ≠ "AS" := by
    rcases of_decide_eq_true hscope with h | h
    · rw [h]
      decide
    · rw [h]
      decide
  exact absurd has hne

/-- A statement of a pull keeps the law, as does a prefix of its statements. -/
theorem Tracked.exec {st : Stmt} (h : Tracked db) (hst : ∀ name d now, st = .upsertDecision name d now → ValidBan d) :
    Tracked (exec db st) := by
  cases st with
  | upsertDecision name d now =>
    exact ⟨rows_upsert h.rows (rowTracked_freshRow (hst name d now rfl)) (fun _ hr => ⟨hr.asn,hr.address,hr.stamp⟩),h.escalations⟩
  | tombstoneIdentity name k now => exact ⟨rows_tombstone h.rows,h.escalations⟩
  | tombstoneLapiId name i now => exact ⟨rows_tombstone h.rows,h.escalations⟩
  | seeIp ip name now => exact ⟨h.rows,h.escalations⟩

theorem Tracked.execAll {stmts : List Stmt} (h : Tracked db)
    (hst : ∀ name d now, .upsertDecision name d now ∈ stmts → ValidBan d) : Tracked (execAll db stmts) := by
  refine execAll_invariant (I := Tracked) h (fun st hmem db hdb => hdb.exec ?_)
  rintro name d now rfl
  exact hst name d now hmem

theorem Tracked.persistAsn {ip field asOrg : String} (h : Tracked db) : Tracked (persistAsn db ip (cymruAsn field) asOrg) :=
  ⟨rows_update (stamp_key _ _) h.rows (fun _ hr => ⟨hr.asn,hr.address,cymruAsn_cases field⟩),h.escalations⟩

theorem Tracked.afterEvaluate {now : Instant} (h : Tracked db) : Tracked (afterEvaluate T db now) := by
  unfold AddressesOnly.afterEvaluate
  split
  · next found db' heval =>
    obtain ⟨hdecisions,hescalations⟩ := asnEvaluate_cases heval
    refine ⟨hdecisions ▸ h.rows,fun e he => ?_⟩
    rcases hescalations e he with hold | ⟨hne,r,hr,hasn⟩
    · exact h.escalations e hold
    · -- the suggestion is about a stamp
      rw [← hasn] at hne ⊢
      exact (h.rows r (Db.mem_activeRows.mp hr).1).stamp.resolve_left hne
  · exact h

theorem rowTracked_asnRow {asn untilAt now : String} {lapiId : ℤ} (h : IsAsn asn) (id : ℕ) :
    RowTracked { asnRow asn lapiId untilAt now with id := id } := ⟨fun _ => h,fun hne => absurd rfl hne,Or.inl rfl⟩

theorem Tracked.afterDecide {id : ℕ} {decision decidedBy note : String} {now : Instant} (h : Tracked db) :
    Tracked (afterDecide db id decision decidedBy note now) := by
  unfold AddressesOnly.afterDecide
  split
  · next reply db' hdecide =>
    obtain ⟨hasns,f,hf,hreply⟩ := asnDecide_asns hdecide
    refine ⟨?_,fun e he => ?_⟩
    · obtain ⟨escalations,rfl | ⟨lapiId,untilAt,rfl⟩⟩ := asnDecide_cases hdecide
      · exact h.rows
      · have hrows : ∀ r ∈ (Db.decisions { db with asnEscalations := escalations }).rows, RowTracked r := h.rows
        exact rows_upsert hrows (rowTracked_asnRow (hreply ▸ h.escalations f hf)) (fun _ hr => ⟨hr.asn,hr.address,hr.stamp⟩)
    · obtain ⟨f',hf',hasn⟩ := hasns e he
      exact hasn ▸ h.escalations f' hf'
  · exact h

theorem Tracked.step {e : Event} {db' : Db} (h : Tracked db) (hs : Step U T db e db') : Tracked db' := by
  cases hs with
  | bootstrap hvalid hpre =>
    exact h.execAll (fun _ d _ hd => hvalid d (Federation.Unban.mem_of_upsert_bootstrap (hpre.subset hd)))
  | streamApply hvalid hpre =>
    exact h.execAll (fun _ d _ hd => hvalid d (Federation.Unban.mem_of_upsert_stream (hpre.subset hd)))
  | persistAsn => exact h.persistAsn
  | evaluate => exact h.afterEvaluate
  | decide => exact h.afterDecide
  | cycle =>
    have hescalations : ∀ now, (desiredFromDb U T db now).2.asnEscalations = db.asnEscalations :=
      fun now => desiredFromDb_keeps Db.asnEscalations (fun _ _ _ _ => rfl) (fun _ _ => rfl)
    refine ⟨?_,?_⟩
    · rw [decisions_desiredFromDb]
      exact h.rows
    · rw [hescalations]
      exact h.escalations

/-! ## The list of a target -/

variable {compile : Compile} {reputation : BulkComputeForMin} {now : Instant}

/-- What is to be added is the value of a desired decision. -/
theorem mem_toAdd {filters : TargetFilters} {current : List Entry} {p : String × String}
    (hp : p ∈ toAdd U T compile reputation db now filters current) :
    ∃ d ∈ (desiredFromDb U T db now).1, strip d.value = p.1 := by
  have hkey : p.1 ∈ (toAdd U T compile reputation db now filters current).map Prod.fst := List.mem_map_of_mem hp
  rw [toAdd, map_fst_toAdd] at hkey
  obtain ⟨decision,hdecision,hk⟩ := List.mem_map.mp (OrderedDict.mem_firstKeys.mp (List.mem_filter.mp hkey).1)
  obtain ⟨d,hd,rfl⟩ := List.mem_map.mp (List.mem_filter.mp hdecision).1
  refine ⟨d,mem_of_mem_filterDesired hd,?_⟩
  rw [← hk]
  unfold desiredKey decisionOf
  by_cases hne : d.value = ""
  · rw [hne]
    rfl
  · rw [orElse_some hne]

/-- An empty target without filters is asked for every desired value. -/
theorem toAdd_of_desired {d : DesiredRow} (hd : d ∈ (desiredFromDb U T db now).1) (hne : strip d.value ≠ "") :
    ∃ p ∈ toAdd U T compile reputation db now {} [], p.1 = strip d.value := by
  have hvalue : d.value ≠ "" := by
    intro he
    rw [he] at hne
    exact hne rfl
  have hkey : desiredKey (decisionOf d) = strip d.value := by
    unfold desiredKey decisionOf
    rw [orElse_some hvalue]
  have hmem : strip d.value ∈ (toAdd U T compile reputation db now {} []).map Prod.fst := by
    rw [toAdd, map_fst_toAdd]
    refine List.mem_filter.mpr ⟨OrderedDict.mem_firstKeys.mpr ?_,by simp [ownedAddrs]⟩
    rw [← hkey]
    refine List.mem_map_of_mem (List.mem_filter.mpr ⟨?_,by simpa [hkey] using hne⟩)
    exact List.mem_map_of_mem hd
  obtain ⟨p,hp,heq⟩ := List.mem_map.mp hmem
  exact ⟨p,hp,heq⟩

theorem IsAsn.strip_ne_empty {s : String} (h : IsAsn s) : strip s ≠ "" := by
  obtain ⟨number,rfl⟩ := h
  have hs : ("AS" ++ number).toList = 'A' :: 'S' :: number.toList := by simp
  obtain ⟨rest,hstrip⟩ := toList_strip_cons hs (by decide) (by decide)
  intro he
  rw [he] at hstrip
  cases hstrip

theorem validAddress_strip {v : String} : ValidAddress (strip v) ↔ ValidAddress v := by
  unfold ValidAddress
  rw [strip_strip]

/-- Where the rows are tracked, only an ASN can be listed that is no address. -/
theorem onlyAddresses_iff (h : Tracked db) :
    OnlyAddresses U T compile reputation db now ↔ AsnsWithheld U T db now := by
  constructor
  · intro honly r hr hscope helig
    by_contra hno
    obtain ⟨d,hd,hv⟩ := mem_desiredFromDb.mpr ⟨⟨r,hr,rfl⟩,helig,Option.not_isSome_iff_eq_none.mp hno⟩
    have hasn : IsAsn d.value := hv ▸ (h.rows r (Db.mem_activeRows.mp hr).1).asn hscope
    obtain ⟨p,hp,heq⟩ := @toAdd_of_desired U T db compile reputation now d hd hasn.strip_ne_empty
    have hvalid := honly {} [] p hp
    rw [heq, validAddress_strip] at hvalid
    exact hasn.not_validAddress hvalid
  · intro hwithheld filters current p hp
    obtain ⟨d,hd,hk⟩ := mem_toAdd hp
    obtain ⟨⟨r,hr,hrv⟩,helig,hnone⟩ := mem_desiredFromDb.mp ⟨d,hd,rfl⟩
    rw [← hk, validAddress_strip, ← hrv]
    refine (h.rows r (Db.mem_activeRows.mp hr).1).address (fun hscope => ?_)
    have hsome := hwithheld r hr hscope (hrv.symm ▸ helig)
    rw [hrv, hnone] at hsome
    cases hsome

end

/-- In every run of pulls, stamps, suggestions, decisions on them and cycles: the lists computed for any target hold
addresses alone, at every state and time, exactly when each ASN that stands in an active row is withheld. -/
theorem addresses_only_iff (U : CaseMap) (T : CharTable) (compile : Compile) (reputation : BulkComputeForMin) {db s : Db}
    {ts : List (Transition Db Event)} (h : Trace (Step U T) db ts s) (hdb : Tracked db) :
    (∀ t ∈ ts, ∀ now, OnlyAddresses U T compile reputation t.after now) ↔ ∀ t ∈ ts, ∀ now, AsnsWithheld U T t.after now := by
  have htracked := (h.always (I := Tracked) hdb (fun _ hs ht => ht.step hs)).2
  exact forall_congr' (fun t => forall_congr' (fun ht => forall_congr' (fun now => onlyAddresses_iff (htracked t ht).2)))

/-! ## Ten banned addresses of one ASN -/

def bannedAddress (i : ℕ) : LapiDecision where
  id := i
  value := "198.51.100." ++ toString i
  scope := "Ip"
  type := "ban"
  scenario := "ssh-bf"

def tenBans : List LapiDecision := (List.range 10).map bannedAddress

def pulledDb : Db := execAll Db.empty (bootstrapStmts "local" tenBans (isoformat 0) Db.empty)

def pull : Transition Db Event := ⟨Db.empty,.bootstrap "local" tenBans 0,pulledDb⟩

theorem pull_trace (U : CaseMap) (T : CharTable) : Trace (Step U T) Db.empty [pull] pulledDb := by
  have hvalid : ∀ d ∈ tenBans, ValidBan d := by
    unfold ValidBan ValidAddress
    decide +kernel
  exact Trace.single (.bootstrap hvalid (List.prefix_refl _))

theorem addresses_only_iff_example :
    Tracked Db.empty ∧
    ((∀ t ∈ [pull], ∀ now, OnlyAddresses .ascii .ascii (fun _ => none) (fun _ => none) t.after now) ↔
      ∀ t ∈ [pull], ∀ now, AsnsWithheld .ascii .ascii t.after now) :=
  ⟨tracked_empty,addresses_only_iff .ascii .ascii (fun _ => none) (fun _ => none) (pull_trace .ascii .ascii) tracked_empty⟩

/-- The intel worker has come to the first `n` of them. -/
def stampedDb : ℕ → Db
  | 0 => pulledDb
  | n + 1 => persistAsn (stampedDb n) ("198.51.100." ++ toString n) (cymruAsn "64500") "EXAMPLE"

theorem stampedDb_trace (U : CaseMap) (T : CharTable) (n : ℕ) : ∃ ts, Trace (Step U T) Db.empty ts (stampedDb n) := by
  induction n with
  | zero => exact ⟨_,pull_trace U T⟩
  | succ n ih =>
    obtain ⟨ts,h⟩ := ih
    exact ⟨_,h.snoc .persistAsn⟩

def suggestedDb : Db := afterEvaluate .ascii (stampedDb 10) 0

example : suggestedDb.asnEscalations.rows.map AsnEscalation.asn = ["AS64500"] := by decide +kernel

def approvedDb : Db := afterDecide suggestedDb 1 "approved" "admin" "" 0

/-- Once the suggestion is approved, every target is to list `AS64500`. -/
theorem approved_asn_listed :
    ¬ ∀ (U : CaseMap) (T : CharTable) (compile : Compile) (reputation : BulkComputeForMin) (s : Db)
      (ts : List (Transition Db Event)), Trace (Step U T) Db.empty ts s →
      ∀ t ∈ ts, ∀ now, OnlyAddresses U T compile reputation t.after now := by
  intro hall
  obtain ⟨ts,hstamped⟩ := stampedDb_trace .ascii .ascii 10
  have hsuggested : Step .ascii .ascii (stampedDb 10) (.evaluate 0) suggestedDb := .evaluate
  have happroved : Step .ascii .ascii suggestedDb (.decide 1 "approved" "admin" "" 0) approvedDb := .decide
  have honly := hall .ascii .ascii (fun _ => none) (fun _ => none) _ _ ((hstamped.snoc hsuggested).snoc happroved)
    ⟨suggestedDb,.decide 1 "approved" "admin" "" 0,approvedDb⟩ (List.mem_append_right _ (List.mem_singleton_self _)) 0
  have hdesired : (⟨"AS64500","AS","asn_detector/escalation","asn_detector","asn_detector",0⟩ : DesiredRow) ∈
      (desiredFromDb .ascii .ascii approvedDb 0).1 := by decide +kernel
  obtain ⟨p,hp,hvalue⟩ := toAdd_of_desired hdesired (by decide)
  have hvalid := honly {} [] p hp
  rw [hvalue] at hvalid
  exact absurd hvalid (by unfold ValidAddress; decide)

end Protek.Targets.AddressesOnly
