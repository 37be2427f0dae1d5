import Protek.Foundation.Ranking
import Protek.Targets.EntryCap
import Protek.Targets.FilterFidelity

/-! # Which bans a cap keeps

The cap takes the rows of greatest `lapi_id`, but the grouping has given each value
and scope the least `lapi_id` of its rows. So the cap ranks a value by its oldest
active ban, and a value that is banned again and again loses to one banned once.
-/
namespace Protek.Targets
open Foundation Foundation.PyText Foundation.Clock Protek.Store Protek.Policy

/-- A target whose only option is `max_entries`. -/
def capOnly (M : ℤ) : TargetFilters := { maxEntries := some M }

/-- The newest active ban of `A` is not newer than the newest one of `B`. -/
def NotNewer (db : Db) (A B : String) : Prop :=
  ∀ r ∈ db.activeRows, r.value = A → ∃ q ∈ db.activeRows, q.value = B ∧ r.lapiId ≤ q.lapiId

/-- In one of its scopes all bans of `B` are newer than the oldest one of each scope of `A`. -/
def Behind (db : Db) (A B : String) : Prop :=
  ∃ b ∈ db.activeRows, b.value = B ∧ ∀ a ∈ db.activeRows, a.value = A →
    ∃ a' ∈ db.activeRows, a'.value = A ∧ a'.scope = a.scope ∧
      ∀ b' ∈ db.activeRows, b'.value = B → b'.scope = b.scope → a'.lapiId < b'.lapiId

section
variable (U : CaseMap) (T : CharTable) (compile : Compile) (reputation : BulkComputeForMin) (db : Db) (now : Instant)

/-- Under every cap a value that is dropped has no newer ban than one that is kept. -/
def KeepsFreshest : Prop :=
  ∀ (M : ℤ) (A B : String), (∃ d ∈ (desiredFromDb U T db now).1, d.value = A) →
    (∀ d ∈ filterDesiredForBouncer compile reputation (capOnly M) (desiredFromDb U T db now).1, d.value ≠ A) →
    (∃ d ∈ filterDesiredForBouncer compile reputation (capOnly M) (desiredFromDb U T db now).1, d.value = B) →
    NotNewer db A B

/-- A value that a cycle wants on the targets. -/
def Wanted (v : String) : Prop :=
  (∃ r ∈ db.activeRows, r.value = v) ∧ Eligible T db now v ∧ whitelisted U db now v = none

end

section
variable {U : CaseMap} {T : CharTable} {compile : Compile} {reputation : BulkComputeForMin} {db : Db} {now : Instant}

/-- Under a cap alone the filter is the cap. -/
theorem filterDesired_capOnly (M : ℤ) (desired : List DesiredRow) :
    filterDesiredForBouncer compile reputation (capOnly M) desired = newest desired M := by
  have hrest : keepReputable reputation (capOnly M) (keepScenarios compile (capOnly M) (keepSources (capOnly M)
      (desired.filter (fun d => (capOnly M).originOk d.origin)))) = desired := by
    rw [keepScenarios_eq, keepSources_eq]
    simp [capOnly, keepReputable, isZero, TargetFilters.originOk, TargetFilters.sourceOk, TargetFilters.scenarioOk,
      TargetFilters.allowedSources]
  unfold filterDesiredForBouncer
  split
  · next hoff =>
    have hzero : M = 0 := by
      by_contra hne
      simp [TargetFilters.isOff, isZero, capOnly, hne] at hoff
    rw [hzero]
    rfl
  · dsimp only
    rw [hrest]
    rfl

/-- The rows of a cycle: the group of an active ban, with the least of its ids. -/
theorem lapiId_desired {d : DesiredRow} (h : d ∈ (desiredFromDb U T db now).1) :
    LeastIn (scopeGroup db (d.value,d.scope)) DecisionRow.lapiId d.lapiId := by
  obtain ⟨k,hk,rfl⟩ := List.mem_map.mp (mem_desiredFromDb_row.mp h).1
  obtain ⟨r,hr,rfl⟩ := List.mem_map.mp (OrderedDict.mem_firstKeys.mp hk)
  obtain ⟨hact,hq⟩ := List.mem_filter.mp hr
  have hgroup : (db.activeRows.filter (fun r => qualifies T db now r.value)).filter (fun q => (q.value,q.scope) = (r.value,r.scope)) =
      scopeGroup db (r.value,r.scope) := by
    rw [List.filter_filter, scopeGroup]
    apply List.filter_congr
    intro q _
    by_cases he : (q.value,q.scope) = (r.value,r.scope)
    · obtain ⟨hv,_⟩ := Prod.mk.inj he
      simp [hv, hq]
    · simp [he]
  have hid : (groupRow (db.activeRows.filter (fun r => qualifies T db now r.value)) (r.value,r.scope)).lapiId =
      ((scopeGroup db (r.value,r.scope)).map DecisionRow.lapiId).min?.getD 0 := by
    rw [← hgroup]
    rfl
  change LeastIn (scopeGroup db (r.value,r.scope)) DecisionRow.lapiId (groupRow _ (r.value,r.scope)).lapiId
  rw [hid]
  exact leastIn_min? DecisionRow.lapiId (scopeGroup_ne_nil hact)

theorem exists_desired {r : DecisionRow} (hr : r ∈ db.activeRows) (hw : Wanted U T db now r.value) :
    ∃ d ∈ (desiredFromDb U T db now).1, d.value = r.value ∧ d.scope = r.scope := by
  obtain ⟨_,⟨hq,ha⟩,hnone⟩ := hw
  refine ⟨groupRow _ (r.value,r.scope),mem_desiredFromDb_row.mpr ⟨List.mem_map.mpr ⟨(r.value,r.scope),?_,rfl⟩,hnone,ha⟩,rfl,rfl⟩
  exact OrderedDict.mem_firstKeys.mpr (List.mem_map.mpr ⟨r,List.mem_filter.mpr ⟨hr,hq⟩,rfl⟩)

theorem mem_scopeGroup {v scope : String} {r : DecisionRow} :
    r ∈ scopeGroup db (v,scope) ↔ r ∈ db.activeRows ∧ r.value = v ∧ r.scope = scope := by
  simp [scopeGroup]

/-- Two desired rows with different values have different ids, for an id is that of one ban. -/
theorem lapiId_ne (hids : (db.activeRows.map DecisionRow.lapiId).Nodup) {d e : DesiredRow}
    (hd : d ∈ (desiredFromDb U T db now).1) (he : e ∈ (desiredFromDb U T db now).1) (hne : d.value ≠ e.value) :
    d.lapiId ≠ e.lapiId := by
  intro heq
  obtain ⟨⟨a,ha,hida⟩,_⟩ := lapiId_desired hd
  obtain ⟨⟨b,hb,hidb⟩,_⟩ := lapiId_desired he
  obtain ⟨hact,hva,_⟩ := mem_scopeGroup.mp ha
  obtain ⟨hbct,hvb,_⟩ := mem_scopeGroup.mp hb
  have hsame : a = b := List.inj_on_of_nodup_map hids hact hbct (by rw [hida, hidb, heq])
  exact hne (by rw [← hva, ← hvb, hsame])

/-- What a cap drops is behind what it keeps. -/
theorem behind_of_dropped (hids : (db.activeRows.map DecisionRow.lapiId).Nodup) {M : ℤ} {A : String} {e : DesiredRow}
    (hA : ∃ d ∈ (desiredFromDb U T db now).1, d.value = A)
    (hdrop : ∀ d ∈ newest (desiredFromDb U T db now).1 M, d.value ≠ A)
    (hB : e ∈ newest (desiredFromDb U T db now).1 M) : Behind db A e.value := by
  have heD := mem_of_mem_newest hB
  have hlt : ∀ d ∈ (desiredFromDb U T db now).1, d.value = A → d.lapiId < e.lapiId := by
    intro d hd hv
    have hout : d ∉ newest (desiredFromDb U T db now).1 M := fun hmem => hdrop d hmem hv
    refine lt_of_le_of_ne ?_ (lapiId_ne hids hd heD (hv ▸ (hdrop e hB).symm))
    have hdesc := Ranking.descending_insertionSort DesiredRow.lapiId (desiredFromDb U T db now).1
    have hsorted := (List.perm_insertionSort (fun a b : DesiredRow => b.lapiId ≤ a.lapiId) _).mem_iff.mpr hd
    unfold newest slice at hB hout
    split at hB
    · next hcap =>
      rw [if_pos hcap] at hout
      split at hB
      · next hneg =>
        rw [if_pos hneg] at hout
        exact hdesc.le_of_mem_take hB hsorted hout
      · next hpos =>
        rw [if_neg hpos] at hout
        exact hdesc.le_of_mem_take hB hsorted hout
    · next hcap =>
      rw [if_neg hcap] at hout
      exact absurd hd hout
  obtain ⟨d,hd,rfl⟩ := hA
  have hwanted : Wanted U T db now d.value := mem_desiredFromDb.mp ⟨d,hd,rfl⟩
  obtain ⟨⟨b,hb,_⟩,hleastB⟩ := lapiId_desired heD
  obtain ⟨hbct,hvb,hsb⟩ := mem_scopeGroup.mp hb
  refine ⟨b,hbct,hvb,fun a ha hva => ?_⟩
  obtain ⟨c,hc,hvc,hsc⟩ := exists_desired ha (hva ▸ hwanted)
  obtain ⟨⟨a',ha',hida⟩,_⟩ := lapiId_desired hc
  obtain ⟨hact',hva',hsa'⟩ := mem_scopeGroup.mp ha'
  refine ⟨a',hact',hva'.trans (hvc.trans hva),hsa'.trans hsc,fun b' hb' hvb' hsb' => ?_⟩
  calc a'.lapiId = c.lapiId := hida
    _ < e.lapiId := hlt c hc (hvc.trans hva)
    _ ≤ b'.lapiId := hleastB b' (mem_scopeGroup.mpr ⟨hb',hvb',hsb'.trans hsb⟩)

/-- A cap at the rank of a desired row keeps the rows from that rank upwards. -/
theorem newest_at (desired : List DesiredRow) {d e : DesiredRow} (he : e ∈ desired) (hd : d ∈ desired)
    (hlt : d.lapiId < e.lapiId) :
    ∃ M : ℤ, ∀ c, c ∈ newest desired M ↔ c ∈ desired ∧ e.lapiId ≤ c.lapiId := by
  let front := desired.filter (fun c => e.lapiId ≤ c.lapiId)
  have hperm := List.perm_insertionSort (fun a b : DesiredRow => b.lapiId ≤ a.lapiId) desired
  have hlen : ((desired.insertionSort (fun a b => b.lapiId ≤ a.lapiId)).filter (fun c => e.lapiId ≤ c.lapiId)).length =
      front.length := (hperm.filter _).length_eq
  have hpos : 0 < front.length := List.length_pos_of_mem (List.mem_filter.mpr ⟨he,by simp⟩)
  have hlast : front.length < desired.length :=
    List.length_filter_lt_length_iff_exists.mpr ⟨d,hd,by simpa using hlt⟩
  refine ⟨front.length,fun c => ?_⟩
  unfold newest slice
  rw [if_pos ⟨by omega,by omega⟩, if_neg (by omega), Int.natAbs_natCast, ← hlen,
    (Ranking.descending_insertionSort DesiredRow.lapiId desired).take_length_filter, List.mem_filter, hperm.mem_iff]
  simp

/-- A cap keeps the values with the newest bans exactly when no wanted value that is behind
another one has the newest ban of the two. -/
theorem keeps_freshest_iff (compile : Compile) (reputation : BulkComputeForMin)
    (hids : (db.activeRows.map DecisionRow.lapiId).Nodup) :
    KeepsFreshest U T compile reputation db now ↔
      ∀ A B, Wanted U T db now A → Wanted U T db now B → Behind db A B → NotNewer db A B := by
  unfold KeepsFreshest
  simp only [filterDesired_capOnly]
  constructor
  · rintro hlaw A B hA hB ⟨b,hb,rfl,hbehind⟩
    obtain ⟨e,he,hve,hse⟩ := exists_desired hb hB
    obtain ⟨⟨b',hb',hidb⟩,_⟩ := lapiId_desired he
    obtain ⟨hbct,hvb,hsb⟩ := mem_scopeGroup.mp hb'
    have hlt : ∀ c ∈ (desiredFromDb U T db now).1, c.value = A → c.lapiId < e.lapiId := by
      intro c hc hvc
      obtain ⟨⟨a,ha,_⟩,hleast⟩ := lapiId_desired hc
      obtain ⟨hact,hva,hsa⟩ := mem_scopeGroup.mp ha
      obtain ⟨a',ha',hva',hsa',hnewer⟩ := hbehind a hact (hva.trans hvc)
      calc c.lapiId ≤ a'.lapiId := hleast a' (mem_scopeGroup.mpr ⟨ha',hva'.trans hvc.symm,hsa'.trans hsa⟩)
        _ < b'.lapiId := hnewer b' hbct (hvb.trans hve) (hsb.trans hse)
        _ = e.lapiId := hidb
    obtain ⟨d,hd,hvd⟩ := mem_desiredFromDb.mpr hA
    obtain ⟨M,hM⟩ := newest_at _ he hd (hlt d hd hvd)
    refine hlaw M A b.value ⟨d,hd,hvd⟩ (fun c hc hvc => ?_) ⟨e,(hM e).mpr ⟨he,le_rfl⟩,hve⟩
    obtain ⟨hcD,hle⟩ := (hM c).mp hc
    exact absurd (hlt c hcD hvc) (not_lt.mpr hle)
  · rintro hcond M A B hA hdrop ⟨e,he,rfl⟩
    have hbehind := behind_of_dropped hids hA hdrop he
    exact hcond A e.value (mem_desiredFromDb.mp hA) (mem_desiredFromDb.mp ⟨e,mem_of_mem_newest he,rfl⟩) hbehind

end

/-! ## A repeat offender and a newcomer -/

def repeatOffender : Db :=
  ((Db.empty.upsertDecision { localRow with lapiId := 1 } id Db.key_id).upsertDecision
    { localRow with lapiId := 50, value := "198.51.100.9" } id Db.key_id).upsertDecision
    { localRow with lapiId := 100, scenario := "crowdsecurity/http-bf" } id Db.key_id

theorem keeps_freshest_iff_example :
    KeepsFreshest .ascii .ascii (fun _ => none) (fun _ => none) repeatOffender 0 ↔
      ∀ A B, Wanted .ascii .ascii repeatOffender 0 A → Wanted .ascii .ascii repeatOffender 0 B →
        Behind repeatOffender A B → NotNewer repeatOffender A B :=
  keeps_freshest_iff (fun _ => none) (fun _ => none) (by decide)

/-- A cap of one keeps the ban of id 50 and drops the address with bans 1 and 100. -/
theorem repeat_offender_dropped :
    ¬ KeepsFreshest .ascii .ascii (fun _ => none) (fun _ => none) repeatOffender 0 := by
  intro h
  have hdesired : (desiredFromDb .ascii .ascii repeatOffender 0).1 =
      [⟨"203.0.113.7","Ip","crowdsecurity/http-bf","crowdsec","local",1⟩,
        ⟨"198.51.100.9","Ip","crowdsecurity/ssh-bf","crowdsec","local",50⟩] := by decide
  have hkept : filterDesiredForBouncer (fun _ => none) (fun _ => none) (capOnly 1)
      (desiredFromDb .ascii .ascii repeatOffender 0).1 =
        [⟨"198.51.100.9","Ip","crowdsecurity/ssh-bf","crowdsec","local",50⟩] := by
    rw [hdesired]
    decide
  have hnot := h 1 "203.0.113.7" "198.51.100.9" (by rw [hdesired]; decide) (by rw [hkept]; decide) (by rw [hkept]; decide)
  obtain ⟨q,hq,hv,hle⟩ := hnot { localRow with id := 3, lapiId := 100, scenario := "crowdsecurity/http-bf" } (by decide) rfl
  have hall : ∀ q ∈ repeatOffender.activeRows, q.value = "198.51.100.9" → q.lapiId = 50 := by decide
  have := hall q hq hv
  simp only [this] at hle
  omega

end Protek.Targets
