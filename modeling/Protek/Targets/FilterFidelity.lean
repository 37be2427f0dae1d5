import Mathlib.Data.String.Basic
import Protek.Targets.Filters

/-! # Filters on grouped decisions

The filters of a target run after the decisions are grouped by value and scope, and each
column of a group is the least of its rows on its own. So a target may see a decision that
no source has made, and miss one that a source did make.
-/
namespace Protek.Targets
open Foundation Foundation.PyText Foundation.IpAddress Foundation.Clock Protek.Store Protek.Policy

/-- The active rows of one value and scope. -/
def scopeGroup (db : Db) (k : String × String) : List DecisionRow := db.activeRows.filter (fun r => (r.value,r.scope) = k)

/-- `x` is in the column, and nothing in the column is below it. -/
def LeastIn {β : Type*} [LE β] (rows : List DecisionRow) (col : DecisionRow → β) (x : β) : Prop :=
  (∃ r ∈ rows, col r = x) ∧ ∀ r ∈ rows, x ≤ col r

theorem LeastIn.unique {β : Type*} [PartialOrder β] {rows : List DecisionRow} {col : DecisionRow → β} {x y : β}
    (hx : LeastIn rows col x) (hy : LeastIn rows col y) : x = y := by
  obtain ⟨⟨a,ha,rfl⟩,hlx⟩ := hx
  obtain ⟨⟨b,hb,rfl⟩,hly⟩ := hy
  exact le_antisymm (hlx b hb) (hly a ha)

/-- The loop of `minText` ends with its start or a member, and below both. -/
theorem foldl_min_spec (l : List String) (s : String) :
    (l.foldl (fun m t => if t < m then t else m) s = s ∨ l.foldl (fun m t => if t < m then t else m) s ∈ l) ∧
    l.foldl (fun m t => if t < m then t else m) s ≤ s ∧ ∀ t ∈ l, l.foldl (fun m t => if t < m then t else m) s ≤ t := by
  induction l generalizing s with
  | nil => simp
  | cons t rest ih =>
    rw [List.foldl_cons]
    obtain ⟨hmem,hle,hall⟩ := ih (if t < s then t else s)
    generalize rest.foldl (fun m t => if t < m then t else m) (if t < s then t else s) = m at hmem hle hall
    by_cases hlt : t < s
    · rw [if_pos hlt] at hmem hle
      refine ⟨Or.inr ?_,hle.trans hlt.le,?_⟩
      · rcases hmem with rfl | hmem
        · exact List.mem_cons_self
        · exact List.mem_cons_of_mem _ hmem
      · intro u hu
        rcases List.mem_cons.mp hu with rfl | hu
        · exact hle
        · exact hall u hu
    · rw [if_neg hlt] at hmem hle
      refine ⟨hmem.imp_right (List.mem_cons_of_mem _),hle,?_⟩
      intro u hu
      rcases List.mem_cons.mp hu with rfl | hu
      · exact hle.trans (not_lt.mp hlt)
      · exact hall u hu

theorem leastIn_minText {rows : List DecisionRow} (col : DecisionRow → String) (hne : rows ≠ []) :
    LeastIn rows col (minText (rows.map col)) := by
  cases rows with
  | nil => exact absurd rfl hne
  | cons r rest =>
    obtain ⟨hmem,hle,hall⟩ := foldl_min_spec (rest.map col) (col r)
    constructor
    · rcases hmem with hmem | hmem
      · exact ⟨r,List.mem_cons_self,hmem.symm⟩
      · obtain ⟨q,hq,he⟩ := List.mem_map.mp hmem
        exact ⟨q,List.mem_cons_of_mem _ hq,he⟩
    · intro q hq
      rcases List.mem_cons.mp hq with rfl | hq
      · exact hle
      · exact hall (col q) (List.mem_map_of_mem hq)

theorem leastIn_min? {rows : List DecisionRow} (col : DecisionRow → ℤ) (hne : rows ≠ []) :
    LeastIn rows col ((rows.map col).min?.getD 0) := by
  cases hmin : (rows.map col).min? with
  | none => exact absurd (List.map_eq_nil_iff.mp (List.min?_eq_none_iff.mp hmin)) hne
  | some m =>
    obtain ⟨hmem,hall⟩ := List.min?_eq_some_iff.mp hmin
    obtain ⟨q,hq,he⟩ := List.mem_map.mp hmem
    exact ⟨⟨q,hq,he⟩,fun r hr => hall (col r) (List.mem_map_of_mem hr)⟩

/-- The columns of a desired decision over its group. -/
structure IsMinimaOf (rows : List DecisionRow) (d : DesiredRow) : Prop where
  scenario : LeastIn rows DecisionRow.scenario d.scenario
  origin : LeastIn rows DecisionRow.origin d.origin
  originSource : LeastIn rows DecisionRow.originSource d.originSource
  lapiId : LeastIn rows DecisionRow.lapiId d.lapiId

theorem isMinimaOf_groupRow {db : Db} {k : String × String} (hne : scopeGroup db k ≠ []) :
    IsMinimaOf (scopeGroup db k) (groupRow db.activeRows k) where
  scenario := leastIn_minText _ hne
  origin := leastIn_minText _ hne
  originSource := leastIn_minText _ hne
  lapiId := leastIn_min? _ hne

section
variable (compile : Compile) (f : TargetFilters)

def RowPasses (r : DecisionRow) : Prop := f.passes compile r.scenario r.origin r.originSource = true

/-- Exactly the values with a row that passes are emitted, each with the data of a row. -/
def SeesEveryDecision (db : Db) (out : List DesiredRow) : Prop :=
  (∀ v, (∃ d ∈ out, d.value = v) ↔ ∃ r ∈ db.activeRows, r.value = v ∧ RowPasses compile f r) ∧
  ∀ d ∈ out, ∃ r ∈ db.activeRows, r.value = d.value ∧
    r.scenario = d.scenario ∧ r.origin = d.origin ∧ r.originSource = d.originSource ∧ r.lapiId = d.lapiId

/-- The least scenario, origin and source of a group pass the filters together. -/
def MinimaPass (rows : List DecisionRow) : Prop :=
  ∃ scenario origin source, LeastIn rows DecisionRow.scenario scenario ∧ LeastIn rows DecisionRow.origin origin ∧
    LeastIn rows DecisionRow.originSource source ∧ f.passes compile scenario origin source = true

/-- A group whose minima pass has them all in one row of its value, and a value with a row that
passes has such a group. -/
def Representable (db : Db) : Prop :=
  (∀ v scope, MinimaPass compile f (scopeGroup db (v,scope)) → ∃ r ∈ db.activeRows, r.value = v ∧
    LeastIn (scopeGroup db (v,scope)) DecisionRow.scenario r.scenario ∧
    LeastIn (scopeGroup db (v,scope)) DecisionRow.origin r.origin ∧
    LeastIn (scopeGroup db (v,scope)) DecisionRow.originSource r.originSource ∧
    LeastIn (scopeGroup db (v,scope)) DecisionRow.lapiId r.lapiId) ∧
  ∀ r ∈ db.activeRows, RowPasses compile f r → ∃ scope, MinimaPass compile f (scopeGroup db (r.value,scope))

end

section
variable {U : CaseMap} {T : CharTable} {compile : Compile} {reputation : BulkComputeForMin} {f : TargetFilters}
  {db : Db} {now : Instant}

theorem scopeGroup_ne_nil {r : DecisionRow} (hr : r ∈ db.activeRows) : scopeGroup db (r.value,r.scope) ≠ [] :=
  List.ne_nil_of_mem (List.mem_filter.mpr ⟨hr,by simp⟩)

theorem MinimaPass.ne_nil {rows : List DecisionRow} (h : MinimaPass compile f rows) : rows ≠ [] := by
  obtain ⟨_,_,_,⟨⟨r,hr,_⟩,_⟩,_⟩ := h
  exact List.ne_nil_of_mem hr

theorem minimaPass_groupRow {k : String × String} (hk : scopeGroup db k ≠ []) :
    MinimaPass compile f (scopeGroup db k) ↔ f.passes compile (groupRow db.activeRows k).scenario
      (groupRow db.activeRows k).origin (groupRow db.activeRows k).originSource = true := by
  have hm := isMinimaOf_groupRow hk
  constructor
  · rintro ⟨s,o,src,hs,ho,hsrc,hp⟩
    rwa [hs.unique hm.scenario, ho.unique hm.origin, hsrc.unique hm.originSource] at hp
  · exact fun hp => ⟨_,_,_,hm.scenario,hm.origin,hm.originSource,hp⟩

/-- At threshold 1, with nothing whitelisted and no approval mode, each group is desired. -/
theorem desiredFromDb_eq (hone : confidenceThreshold T db.settings ≤ 1) (hap : approvalRequired db.settings = false)
    (hw : ∀ r ∈ db.activeRows, whitelisted U db now r.value = none) :
    (desiredFromDb U T db now).1 =
      (OrderedDict.firstKeys (db.activeRows.map (fun r => (r.value,r.scope)))).map (groupRow db.activeRows) := by
  have hrows : db.activeRows.filter (fun r => qualifies T db now r.value) = db.activeRows := by
    apply List.filter_eq_self.mpr
    intro r _
    simp [qualifies, hone]
  have hsel : selectRows T db now =
      (OrderedDict.firstKeys (db.activeRows.map (fun r => (r.value,r.scope)))).map (groupRow db.activeRows) := by
    unfold selectRows
    simp only [hrows]
  have hkeep : (selectRows T db now).filter (fun d => (whitelisted U db now d.value).isNone) = selectRows T db now := by
    apply List.filter_eq_self.mpr
    intro d hd
    obtain ⟨⟨r,hr,he⟩,_⟩ := mem_selectRows_value.mp ⟨d,hd,rfl⟩
    rw [← he, hw r hr]
    rfl
  rw [← hsel]
  unfold desiredFromDb
  by_cases hnil : selectRows T db now = []
  · simp [hnil]
  · simp [hnil, hap, hkeep]

/-- What is emitted: the minima of the groups that pass. -/
theorem mem_emitted_iff (hone : confidenceThreshold T db.settings ≤ 1) (hap : approvalRequired db.settings = false)
    (hw : ∀ r ∈ db.activeRows, whitelisted U db now r.value = none)
    (hmax : isZero f.maxEntries = true) (hrep : isZero f.minReputation = true) {d : DesiredRow} :
    d ∈ filterDesiredForBouncer compile reputation f (desiredFromDb U T db now).1 ↔
      ∃ v scope, MinimaPass compile f (scopeGroup db (v,scope)) ∧ d = groupRow db.activeRows (v,scope) := by
  rw [filterDesiredForBouncer_eq hmax hrep, desiredFromDb_eq hone hap hw, List.mem_filter, List.mem_map]
  constructor
  · rintro ⟨⟨k,hk,rfl⟩,hp⟩
    obtain ⟨r,hr,rfl⟩ := List.mem_map.mp (OrderedDict.mem_firstKeys.mp hk)
    exact ⟨r.value,r.scope,(minimaPass_groupRow (scopeGroup_ne_nil hr)).mpr hp,rfl⟩
  · rintro ⟨v,scope,hp,rfl⟩
    obtain ⟨r,hr⟩ := List.exists_mem_of_ne_nil _ hp.ne_nil
    obtain ⟨hact,hkey⟩ := List.mem_filter.mp hr
    refine ⟨⟨(v,scope),OrderedDict.mem_firstKeys.mpr (List.mem_map.mpr ⟨r,hact,by simpa using hkey⟩),rfl⟩,?_⟩
    exact (minimaPass_groupRow hp.ne_nil).mp hp

/-- A target sees every decision, and only decisions, exactly when the minima of its groups
stand for their rows. -/
theorem sees_every_decision_iff (hone : confidenceThreshold T db.settings = 1)
    (hap : approvalRequired db.settings = false) (hw : ∀ r ∈ db.activeRows, whitelisted U db now r.value = none)
    (hmax : isZero f.maxEntries = true) (hrep : isZero f.minReputation = true) :
    SeesEveryDecision compile f db (filterDesiredForBouncer compile reputation f (desiredFromDb U T db now).1) ↔
      Representable compile f db := by
  have hout : ∀ d, d ∈ filterDesiredForBouncer compile reputation f (desiredFromDb U T db now).1 ↔
      ∃ v scope, MinimaPass compile f (scopeGroup db (v,scope)) ∧ d = groupRow db.activeRows (v,scope) :=
    fun d => mem_emitted_iff hone.le hap hw hmax hrep
  simp only [SeesEveryDecision, hout]
  constructor
  · rintro ⟨hvalues,hreal⟩
    constructor
    · intro v scope hp
      obtain ⟨r,hr,hv,hs,ho,hsrc,hid⟩ := hreal _ ⟨v,scope,hp,rfl⟩
      have hm := isMinimaOf_groupRow hp.ne_nil
      exact ⟨r,hr,hv,hs ▸ hm.scenario,ho ▸ hm.origin,hsrc ▸ hm.originSource,hid ▸ hm.lapiId⟩
    · intro r hr hrow
      obtain ⟨d,⟨v,scope,hp,rfl⟩,hv⟩ := (hvalues r.value).mpr ⟨r,hr,rfl,hrow⟩
      exact ⟨scope,hv ▸ hp⟩
  · rintro ⟨hone,hsome⟩
    have hreal : ∀ v scope, MinimaPass compile f (scopeGroup db (v,scope)) → ∃ r ∈ db.activeRows, r.value = v ∧
        r.scenario = (groupRow db.activeRows (v,scope)).scenario ∧ r.origin = (groupRow db.activeRows (v,scope)).origin ∧
        r.originSource = (groupRow db.activeRows (v,scope)).originSource ∧
        r.lapiId = (groupRow db.activeRows (v,scope)).lapiId := by
      intro v scope hp
      have hm := isMinimaOf_groupRow hp.ne_nil
      obtain ⟨r,hr,hv,hs,ho,hsrc,hid⟩ := hone v scope hp
      exact ⟨r,hr,hv,hs.unique hm.scenario,ho.unique hm.origin,hsrc.unique hm.originSource,hid.unique hm.lapiId⟩
    constructor
    · intro v
      constructor
      · rintro ⟨d,⟨v',scope,hp,rfl⟩,hv⟩
        obtain ⟨r,hr,hrv,hs,ho,hsrc,_⟩ := hreal v' scope hp
        refine ⟨r,hr,hrv.trans hv,?_⟩
        unfold RowPasses
        rw [hs, ho, hsrc]
        exact (minimaPass_groupRow hp.ne_nil).mp hp
      · rintro ⟨r,hr,rfl,hrow⟩
        obtain ⟨scope,hp⟩ := hsome r hr hrow
        exact ⟨_,⟨r.value,scope,hp,rfl⟩,rfl⟩
    · rintro d ⟨v,scope,hp,rfl⟩
      exact hreal v scope hp

end

/-! ## An address that two sources ban -/

def localRow : DecisionRow where
  id := 0
  originSource := "local"
  lapiId := 5
  value := "203.0.113.7"
  scope := "Ip"
  type := "ban"
  scenario := "crowdsecurity/ssh-bf"
  origin := "crowdsec"
  duration := "4h"
  untilAt := none
  firstSeenAt := ""
  lastSeenAt := ""
  deletedAt := none

def remoteRow : DecisionRow := { localRow with originSource := "vps-b", lapiId := 9, scenario := "crowdsecurity/http-bf" }

def twoSources : Db :=
  (Db.empty.upsertDecision localRow id Db.key_id).upsertDecision remoteRow id Db.key_id

def onlyRemote : TargetFilters := { sourceFilter := some (.csv "vps-b") }

/-- Patterns without special characters are searched as they are. -/
def plainSearch : Compile := fun p => some (fun s => contains s p)

theorem twoSources_plain : confidenceThreshold CharTable.ascii twoSources.settings = 1 ∧
    approvalRequired twoSources.settings = false ∧
    ∀ r ∈ twoSources.activeRows, whitelisted CaseMap.ascii twoSources 0 r.value = none := by
  refine ⟨by decide,by decide,?_⟩
  intro r _
  have hrules : listWhitelist twoSources 0 = [] := by decide
  unfold whitelisted
  rw [hrules]
  rfl

theorem sees_every_decision_iff_example :
    SeesEveryDecision plainSearch onlyRemote twoSources (filterDesiredForBouncer plainSearch (fun _ => none) onlyRemote
      (desiredFromDb CaseMap.ascii CharTable.ascii twoSources 0).1) ↔ Representable plainSearch onlyRemote twoSources :=
  sees_every_decision_iff twoSources_plain.1 twoSources_plain.2.1 twoSources_plain.2.2 (by decide) (by decide)

/-- The target that takes the bans of `vps-b` misses one, for `local` bans the address too. -/
theorem source_filter_misses_ban :
    ¬ SeesEveryDecision plainSearch onlyRemote twoSources (filterDesiredForBouncer plainSearch (fun _ => none) onlyRemote
      (desiredFromDb CaseMap.ascii CharTable.ascii twoSources 0).1) := by
  intro h
  have hout : filterDesiredForBouncer plainSearch (fun _ => none) onlyRemote
      (desiredFromDb CaseMap.ascii CharTable.ascii twoSources 0).1 = [] := by decide
  have hrow : ∃ r ∈ twoSources.activeRows, r.value = "203.0.113.7" ∧ RowPasses plainSearch onlyRemote r :=
    ⟨{ remoteRow with id := 2 },by decide,rfl,by unfold RowPasses; decide⟩
  obtain ⟨d,hd,_⟩ := (h.1 "203.0.113.7").mpr hrow
  rw [hout] at hd
  exact absurd hd List.not_mem_nil

end Protek.Targets
