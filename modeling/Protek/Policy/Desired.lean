import Protek.Foundation.OrderedDict
import Protek.Foundation.Trace
import Protek.Policy.Whitelist

/-! # The desired decisions

`_desired_from_db`: the active rows grouped by value and scope, less the values
that too few sources have seen, that a whitelist rule spares, or that nobody has
approved. Each of these tests looks at the value alone.
-/
namespace Protek.Policy
open Foundation Foundation.PyText Foundation.IpAddress Foundation.Clock Protek.Store

structure DesiredRow where
  value : String
  scope : String
  scenario : String
  origin : String
  originSource : String
  lapiId : ℤ
  deriving DecidableEq, Repr

section
variable (U : CaseMap) (T : CharTable)

/-- `max(1, int(get_setting(…) or "1"))`, 1 where the setting is no number. -/
def confidenceThreshold (settings : String → Option String) : ℤ :=
  match pyInt T (orElse (settings "federation.confidence_threshold") "1") with
  | some n => max 1 n
  | none => 1

/-- How many sources have seen an address since the day of the cutoff: `last_seen_at`
is compared with `datetime('now', '-7 days')` as text. -/
def sourcesSeen (db : Db) (now : Instant) (ip : String) : ℕ :=
  (db.ipSources.rows.filter (fun r => r.ip = ip ∧ sqliteDatetime (now - 7 * day) < r.lastSeenAt)).length

def qualifies (db : Db) (now : Instant) (value : String) : Bool :=
  confidenceThreshold T db.settings ≤ 1 ∨ confidenceThreshold T db.settings ≤ sourcesSeen db now value

/-- MIN of a text column, by code points. -/
def minText : List String → String
  | [] => ""
  | s :: rest => rest.foldl (fun m t => if t < m then t else m) s

/-- One row of the GROUP BY, with the MIN of each other column. -/
def groupRow (rows : List DecisionRow) (k : String × String) : DesiredRow :=
  let group := rows.filter (fun r => (r.value,r.scope) = k)
  { value := k.1
    scope := k.2
    scenario := minText (group.map DecisionRow.scenario)
    origin := minText (group.map DecisionRow.origin)
    originSource := minText (group.map DecisionRow.originSource)
    lapiId := (group.map DecisionRow.lapiId).min?.getD 0 }

/-- The rows that the SELECT returns; SQL leaves their order open. -/
def selectRows (db : Db) (now : Instant) : List DesiredRow :=
  let rows := db.activeRows.filter (fun r => qualifies T db now r.value)
  (OrderedDict.firstKeys (rows.map (fun r => (r.value,r.scope)))).map (groupRow rows)

/-- `asn_map.get(val, "")` over the cached rows of the selected values. -/
def asnOf (db : Db) (value : String) : String :=
  if value = "" then "" else ((db.geoCache.find value).map GeoRow.asn).getD ""

def countryOf (db : Db) (value : String) : String :=
  if value = "" then "" else ((db.geoCache.find value).map GeoRow.countryCode).getD ""

def whitelisted (db : Db) (now : Instant) (value : String) : Option WhitelistRule :=
  matchesWhitelist U value (asnOf db value) (countryOf db value) (listWhitelist db now)

def approved (db : Db) (value : String) : Bool :=
  db.approvalQueue.any (fun q => q.status = .approved ∧ q.ip = value)

/-- `seen_status` is only asked whether it has the address. -/
def queued (db : Db) (value : String) : Bool := db.approvalQueue.any (fun q => q.ip = value)

/-- The list of one cycle and the database with its whitelist hits and queued decisions. -/
def desiredFromDb (db : Db) (now : Instant) : List DesiredRow × Db :=
  let desired := selectRows T db now
  let out := desired.filter (fun d => (whitelisted U db now d.value).isNone)
  let db' := desired.foldl (fun acc d => match whitelisted U db now d.value with
    | some w => recordWhitelistHit acc d.value w.id d.scenario now
    | none => acc) db
  if desired = [] then ([],db)
  else if approvalRequired db.settings then
    (out.filter (fun d => approved db d.value),
      out.foldl (fun acc d => if approved db d.value ∨ queued db d.value then acc
        else queueDecision acc d.value d.scope d.scenario d.origin d.originSource (some d.lapiId) now) db')
  else (out,db')

/-- What a value must pass besides having an active row. -/
def Eligible (db : Db) (now : Instant) (value : String) : Prop :=
  qualifies T db now value = true ∧ (approvalRequired db.settings = true → approved db value = true)

end

section
variable {U : CaseMap} {T : CharTable} {db : Db} {now : Instant}

theorem map_key_selectRows : (selectRows T db now).map (fun d => (d.value,d.scope)) =
    OrderedDict.firstKeys ((db.activeRows.filter (fun r => qualifies T db now r.value)).map (fun r => (r.value,r.scope))) := by
  rw [selectRows, List.map_map]
  exact List.map_id _

theorem mem_selectRows_value {v : String} :
    (∃ d ∈ selectRows T db now, d.value = v) ↔
      (∃ r ∈ db.activeRows, r.value = v) ∧ qualifies T db now v = true := by
  constructor
  · rintro ⟨d,hd,rfl⟩
    obtain ⟨k,hk,rfl⟩ := List.mem_map.mp hd
    obtain ⟨r,hr,rfl⟩ := List.mem_map.mp (OrderedDict.mem_firstKeys.mp hk)
    obtain ⟨hact,hq⟩ := List.mem_filter.mp hr
    exact ⟨⟨r,hact,rfl⟩,hq⟩
  · rintro ⟨⟨r,hr,rfl⟩,hq⟩
    refine ⟨groupRow _ (r.value,r.scope),List.mem_map.mpr ⟨(r.value,r.scope),?_,rfl⟩,rfl⟩
    exact OrderedDict.mem_firstKeys.mpr (List.mem_map.mpr ⟨r,List.mem_filter.mpr ⟨hr,hq⟩,rfl⟩)

/-- The list of a cycle: the selected rows that no rule spares and, in approval mode, that are approved. -/
theorem mem_desiredFromDb_row {d : DesiredRow} :
    d ∈ (desiredFromDb U T db now).1 ↔ d ∈ selectRows T db now ∧ whitelisted U db now d.value = none ∧
      (approvalRequired db.settings = true → approved db d.value = true) := by
  unfold desiredFromDb
  by_cases hnil : selectRows T db now = []
  · simp [hnil]
  · rw [if_neg hnil]
    cases hap : approvalRequired db.settings with
    | false => simp [List.mem_filter]
    | true => simp [List.mem_filter, and_comm]

/-- A value is desired exactly when it has an active row, is eligible, and is not whitelisted. -/
theorem mem_desiredFromDb {v : String} :
    (∃ d ∈ (desiredFromDb U T db now).1, d.value = v) ↔
      (∃ r ∈ db.activeRows, r.value = v) ∧ Eligible T db now v ∧ whitelisted U db now v = none := by
  constructor
  · rintro ⟨d,hd,rfl⟩
    obtain ⟨hsel,hw,ha⟩ := mem_desiredFromDb_row.mp hd
    obtain ⟨hr,hq⟩ := mem_selectRows_value.mp ⟨d,hsel,rfl⟩
    exact ⟨hr,⟨hq,ha⟩,hw⟩
  · rintro ⟨hr,⟨hq,ha⟩,hw⟩
    obtain ⟨d,hd,rfl⟩ := mem_selectRows_value.mpr ⟨hr,hq⟩
    exact ⟨d,mem_desiredFromDb_row.mpr ⟨hd,hw,ha⟩,rfl⟩

/-- What a whitelist hit does not change, recording the hits of a cycle leaves as it was. -/
theorem foldl_hits_keeps {β : Type*} (proj : Db → β)
    (hhit : ∀ (acc : Db) (ip : String) (id : ℕ) (scenario : String),
      proj (recordWhitelistHit acc ip id scenario now) = proj acc) (l : List DesiredRow) (acc : Db) :
    proj (l.foldl (fun acc d => match whitelisted U db now d.value with
      | some w => recordWhitelistHit acc d.value w.id d.scenario now
      | none => acc) acc) = proj acc := by
  refine foldl_keeps proj (fun acc d _ => ?_)
  split
  · exact hhit acc _ _ _
  · rfl

/-- What neither a whitelist hit nor a queued decision changes, a cycle leaves as it was. -/
theorem desiredFromDb_keeps {β : Type*} (proj : Db → β)
    (hhit : ∀ (acc : Db) (ip : String) (id : ℕ) (scenario : String),
      proj (recordWhitelistHit acc ip id scenario now) = proj acc)
    (hqueue : ∀ (acc : Db) (d : DesiredRow), proj (queueDecision acc d.value d.scope d.scenario d.origin d.originSource
      (some d.lapiId) now) = proj acc) : proj (desiredFromDb U T db now).2 = proj db := by
  have hqueues : ∀ (l : List DesiredRow) (acc : Db), proj (l.foldl (fun acc d =>
      if approved db d.value ∨ queued db d.value then acc
      else queueDecision acc d.value d.scope d.scenario d.origin d.originSource (some d.lapiId) now) acc) =
        proj acc := by
    intro l acc
    refine foldl_keeps proj (fun acc d _ => ?_)
    split
    · rfl
    · exact hqueue acc d
  unfold desiredFromDb
  by_cases hnil : selectRows T db now = []
  · simp only [hnil, if_true]
  · simp only [hnil, if_false]
    split
    · rw [hqueues, foldl_hits_keeps proj hhit]
    · rw [foldl_hits_keeps proj hhit]

/-- A cycle writes hits and queue rows, and no decision. -/
theorem decisions_desiredFromDb : (desiredFromDb U T db now).2.decisions = db.decisions :=
  desiredFromDb_keeps Db.decisions (fun _ _ _ _ => rfl) (fun _ _ => rfl)

theorem settings_desiredFromDb : (desiredFromDb U T db now).2.settings = db.settings :=
  desiredFromDb_keeps Db.settings (fun _ _ _ _ => rfl) (fun _ _ => rfl)

end
end Protek.Policy
