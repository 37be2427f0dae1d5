import Protek.Policy.Writers

/-! # From banned addresses to an ASN

The intel worker stamps the decisions on an address with its ASN. The detector suggests an
ASN once enough stamped addresses are banned, and where an operator approves, the ASN itself
becomes the value of a decision.
-/
namespace Protek.Policy
open Foundation Foundation.PyText Foundation.Clock Protek.Store

/-! ## Stamps -/

/-- The ASN that `cymru_lookup` makes of the first field of an answer. -/
def cymruAsn (field : String) : String := if field = "" then "" else "AS" ++ field

def stamp (asn asOrg : String) (r : DecisionRow) : DecisionRow := { r with asn := asn, asOrg := asOrg }

theorem stamp_key (asn asOrg : String) (r : DecisionRow) : (stamp asn asOrg r).key = r.key := rfl

def persistAsn (db : Db) (ip asn asOrg : String) : Db :=
  let db := { db with geoCache := db.geoCache.upsert ⟨ip,asn,""⟩ (fun g => { g with asn := asn }) (fun _ => rfl) }
  db.updateDecisions (fun r => r.value = ip) (stamp asn asOrg) (stamp_key asn asOrg)

/-! ## Suggestions -/

structure Suggestion where
  id : ℕ
  asn : String
  asOrg : String
  ipCount : ℕ
  windowHours : ℤ
  sampleIps : List String
  deriving DecidableEq, Repr

/-- One row of the GROUP BY, with the distinct values that it counts. -/
structure AsnGroup where
  asn : String
  asOrg : String
  values : List String

/-- `now - timedelta(hours=h)`; what is before 1970 comes before every stored text. `none` is the OverflowError. -/
def hoursBefore (now : Instant) (h : ℤ) : Option Instant :=
  let t : ℤ := now - h * hour
  if t < -62135596800 * second ∨ endOfTime ≤ t then none else some t.toNat

/-- MAX of a text column, by code points. -/
def maxText : List String → String
  | [] => ""
  | s :: rest => rest.foldl (fun m t => if m < t then t else m) s

def groupAsn (rows : List DecisionRow) (asn : String) : AsnGroup :=
  let group := rows.filter (fun r => r.asn = asn)
  ⟨asn,maxText (group.map DecisionRow.asOrg),OrderedDict.firstKeys (group.map DecisionRow.value)⟩

/-- The ASNs with enough banned addresses since an instant, the largest first. -/
def asnGroups (db : Db) (since : String) (minIps : ℤ) : List AsnGroup :=
  let rows := db.activeRows.filter (fun r => ¬ r.firstSeenAt < since ∧ r.asn ≠ "")
  (((OrderedDict.firstKeys (rows.map DecisionRow.asn)).map (groupAsn rows)).filter
    (fun g => minIps ≤ g.values.length)).insertionSort (fun a b => b.values.length ≤ a.values.length)

/-- A suggestion waits for the operator, or was decided after the cutoff. -/
def recentlySuggested (db : Db) (asn cutoff : String) : Bool :=
  db.asnEscalations.rows.any (fun e => e.asn = asn ∧ (e.status = .pending ∨ e.decidedAt.any (fun t => ¬ t < cutoff)))

theorem escalation_id (e : AsnEscalation) : (id e).id = e.id := rfl

/-- One turn of the loop over the groups. -/
def suggest (windowHours : ℤ) (cutoff now : String) (acc : List Suggestion × Db) (g : AsnGroup) : List Suggestion × Db :=
  if recentlySuggested acc.2 g.asn cutoff then acc
  else
    let sid := acc.2.asnEscalationsSeq + 1
    let sample := (split (",".intercalate g.values) ',').take 10
    let row : AsnEscalation := {
      id := sid
      asn := g.asn
      status := .pending
      decidedBy := ""
      decidedAt := none
      note := ""
      asOrg := g.asOrg
      ipCount := g.values.length
      windowHours := windowHours
      sampleIps := sample
      firstSeenAt := now
      lastSeenAt := now }
    (acc.1 ++ [⟨sid,g.asn,g.asOrg,g.values.length,windowHours,sample⟩],
      { acc.2 with asnEscalations := acc.2.asnEscalations.upsert row id escalation_id, asnEscalationsSeq := sid })

section
variable (T : CharTable)

/-- `_setting_int`. -/
def intSetting (settings : String → Option String) (key : String) (default : ℤ) : ℤ :=
  let v := orElse (settings key) ""
  if v = "" then default else (pyInt T v).getD default

/-- `evaluate`, `none` where an OverflowError comes before the first write. -/
def asnEvaluate (db : Db) (now : Instant) : Option (List Suggestion × Db) :=
  let minIps := intSetting T db.settings "asn_detector.min_ips" 10
  let windowHours := intSetting T db.settings "asn_detector.window_hours" 24
  let cooldownHours := intSetting T db.settings "asn_detector.cooldown_hours" 48
  match hoursBefore now windowHours, hoursBefore now cooldownHours with
  | some since, some cutoff =>
    if -2 ^ 63 ≤ minIps ∧ minIps < 2 ^ 63 then
      some ((asnGroups db (isoformat since) minIps).foldl (suggest windowHours (isoformat cutoff) (isoformat now)) ([],db))
    else none
  | _, _ => none

end

/-! ## Which texts become ASNs -/

section
variable {T : CharTable} {db : Db} {now : Instant}

/-- A group is about the ASN of one of the active decisions. -/
theorem mem_asnGroups {since : String} {minIps : ℤ} {g : AsnGroup} (hg : g ∈ asnGroups db since minIps) :
    g.asn ≠ "" ∧ ∃ r ∈ db.activeRows, r.asn = g.asn := by
  have hmem := (List.mem_filter.mp ((List.mem_insertionSort _).mp hg)).1
  obtain ⟨asn,hasn,rfl⟩ := List.mem_map.mp hmem
  obtain ⟨r,hr,rfl⟩ := List.mem_map.mp (OrderedDict.mem_firstKeys.mp hasn)
  obtain ⟨hactive,hwindow⟩ := List.mem_filter.mp hr
  exact ⟨(of_decide_eq_true hwindow).2,r,hactive,rfl⟩

theorem suggest_cases (windowHours : ℤ) (cutoff now : String) (acc : List Suggestion × Db) (g : AsnGroup) :
    (suggest windowHours cutoff now acc g).2.decisions = acc.2.decisions ∧
    ∀ e ∈ (suggest windowHours cutoff now acc g).2.asnEscalations.rows, e ∈ acc.2.asnEscalations.rows ∨ e.asn = g.asn := by
  unfold suggest
  by_cases hrecent : recentlySuggested acc.2 g.asn cutoff = true
  · rw [if_pos hrecent]
    exact ⟨rfl,fun e he => Or.inl he⟩
  · rw [if_neg hrecent]
    refine ⟨rfl,fun e he => ?_⟩
    rcases (@KeyedTable.mem_upsert _ _ _ _ _ _ _ _ escalation_id).mp he with ⟨hold,_⟩ | hnew
    · exact Or.inl hold
    · cases hfind : acc.2.asnEscalations.find (acc.2.asnEscalationsSeq + 1) with
      | none =>
        dsimp only at hnew
        rw [hfind] at hnew
        exact Or.inr (congrArg AsnEscalation.asn hnew)
      | some old =>
        dsimp only at hnew
        rw [hfind] at hnew
        exact Or.inl (hnew ▸ (KeyedTable.find_eq_some.mp hfind).1)

theorem foldl_suggest {windowHours : ℤ} {cutoff now : String} (groups : List AsnGroup) (acc : List Suggestion × Db) :
    (groups.foldl (suggest windowHours cutoff now) acc).2.decisions = acc.2.decisions ∧
    ∀ e ∈ (groups.foldl (suggest windowHours cutoff now) acc).2.asnEscalations.rows,
      e ∈ acc.2.asnEscalations.rows ∨ ∃ g ∈ groups, e.asn = g.asn := by
  induction groups generalizing acc with
  | nil => exact ⟨rfl,fun e he => Or.inl he⟩
  | cons g rest ih =>
    obtain ⟨hdecisions,hrows⟩ := ih (suggest windowHours cutoff now acc g)
    obtain ⟨hdecisions',hrows'⟩ := suggest_cases windowHours cutoff now acc g
    rw [List.foldl_cons]
    refine ⟨hdecisions.trans hdecisions',fun e he => ?_⟩
    rcases hrows e he with hold | ⟨g',hg',he'⟩
    · exact (hrows' e hold).imp id (fun h => ⟨g,List.mem_cons_self,h⟩)
    · exact Or.inr ⟨g',List.mem_cons_of_mem _ hg',he'⟩

/-- An evaluation writes suggestions only, and each names the ASN that an active decision is stamped with. -/
theorem asnEvaluate_cases {found : List Suggestion} {db' : Db} (h : asnEvaluate T db now = some (found,db')) :
    db'.decisions = db.decisions ∧ ∀ e ∈ db'.asnEscalations.rows,
      e ∈ db.asnEscalations.rows ∨ (e.asn ≠ "" ∧ ∃ r ∈ db.activeRows, r.asn = e.asn) := by
  unfold asnEvaluate at h
  dsimp only at h
  split at h
  · split at h
    · obtain ⟨hdecisions,hrows⟩ := foldl_suggest (asnGroups db _ _) ([],db)
      rw [Option.some.inj h] at hdecisions hrows
      refine ⟨hdecisions,fun e he => (hrows e he).imp id ?_⟩
      rintro ⟨g,hg,hasn⟩
      rw [hasn]
      exact mem_asnGroups hg
    · cases h
  · cases h

/-- The escalations after a decision are those before it, under the same ASNs, and it is about one of them. -/
theorem asnDecide_asns {id : ℕ} {decision decidedBy note : String} {reply : AsnReply} {db' : Db}
    (h : asnDecide db id decision decidedBy note now = .ok (reply,db')) :
    (∀ e ∈ db'.asnEscalations.rows, ∃ f ∈ db.asnEscalations.rows, f.asn = e.asn) ∧
    ∃ f ∈ db.asnEscalations.rows, f.asn = reply.asn := by
  have hmarked : ∀ status : QueueStatus, ∀ e ∈ (db.asnEscalations.modify
      (markEscalation id status decidedBy note (isoformat now)) markEscalation_id).rows,
      ∃ f ∈ db.asnEscalations.rows, f.asn = e.asn := by
    intro status e he
    obtain ⟨f,hf,rfl⟩ := List.mem_map.mp he
    refine ⟨f,hf,?_⟩
    unfold markEscalation
    split
    · rfl
    · rfl
  have hfound : ∀ f, db.asnEscalations.find id = some f → ∃ f' ∈ db.asnEscalations.rows, f'.asn = f.asn :=
    fun f hf => ⟨f,(KeyedTable.find_eq_some.mp hf).1,rfl⟩
  unfold asnDecide at h
  dsimp only at h
  split at h
  · split at h
    · cases h
    · next f hf =>
      cases h
      exact ⟨hmarked .approved,hfound f hf⟩
  · split at h
    · split at h
      · cases h
      · next f hf =>
        cases h
        exact ⟨hmarked .rejected,hfound f hf⟩
    · cases h

end
end Protek.Policy
