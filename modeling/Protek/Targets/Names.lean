import Protek.Foundation.KeyedTable
import Protek.Foundation.PyText
import Protek.Foundation.Trace

/-! # The names of the targets

The router of `.env` has its name in a setting, the other targets have theirs in a
table with a UNIQUE constraint. Renaming the router looks into the table; adding and
editing a target does not look at the setting.
-/
namespace Protek.Targets.Names
open Foundation Foundation.PyText

/-- A row of `bouncer_targets`; `C` is the type of its configuration. -/
structure BouncerTarget (C : Type*) where
  id : ℕ
  name : String
  kind : String
  config : C
  enabled : Bool
  dryRun : Bool

structure Registry (C : Type*) where
  table : KeyedTable ℕ (BouncerTarget C) BouncerTarget.id
  seq : ℕ
  nodup_name : (table.rows.map BouncerTarget.name).Nodup
  id_le : ∀ r ∈ table.rows, r.id ≤ seq

namespace Registry
variable {C : Type*}

def empty : Registry C := ⟨.empty,0,List.nodup_nil,by simp [KeyedTable.empty]⟩

def rows (g : Registry C) : List (BouncerTarget C) := g.table.rows

/-- `INSERT`, refused where the name is taken. -/
def insert (g : Registry C) (fresh : BouncerTarget C) : Option (Registry C) :=
  if h : fresh.name ∈ g.rows.map BouncerTarget.name then none
  else some
    { table := ⟨g.rows ++ [{ fresh with id := g.seq + 1 }],by
        rw [List.map_append]
        refine List.nodup_append.mpr ⟨g.table.nodup,List.nodup_singleton _,?_⟩
        intro a ha b hb he
        obtain ⟨r,hr,rfl⟩ := List.mem_map.mp ha
        have hle := g.id_le r hr
        rw [he, List.mem_singleton.mp hb] at hle
        exact absurd hle (Nat.not_succ_le_self _)⟩
      seq := g.seq + 1
      nodup_name := by
        rw [List.map_append]
        refine List.nodup_append.mpr ⟨g.nodup_name,List.nodup_singleton _,?_⟩
        intro a ha b hb he
        rw [List.mem_singleton.mp hb] at he
        exact h (he ▸ ha)
      id_le := by
        intro r hr
        rcases List.mem_append.mp hr with hr | hr
        · exact (g.id_le r hr).trans (Nat.le_succ _)
        · rw [List.mem_singleton.mp hr] }

theorem id_ite {tid : ℕ} {f : BouncerTarget C → BouncerTarget C} (hf : ∀ r, (f r).id = r.id) (r : BouncerTarget C) :
    (if r.id = tid then f r else r).id = r.id := by
  by_cases h : r.id = tid
  · simp [h, hf]
  · simp [h]

/-- `UPDATE … WHERE id = ?`, refused where two rows would share a name. -/
def update (g : Registry C) (tid : ℕ) (f : BouncerTarget C → BouncerTarget C) (hf : ∀ r, (f r).id = r.id) :
    Option (Registry C) :=
  if h : ((g.rows.map (fun r : BouncerTarget C => if r.id = tid then f r else r)).map BouncerTarget.name).Nodup then some
    { table := g.table.modify (fun r => if r.id = tid then f r else r) (id_ite hf)
      seq := g.seq
      nodup_name := h
      id_le := by
        intro r hr
        obtain ⟨q,hq,rfl⟩ := KeyedTable.mem_modify.mp hr
        rw [id_ite hf]
        exact g.id_le q hq }
  else none

def delete (g : Registry C) (tid : ℕ) : Registry C where
  table := g.table.remove (fun r => r.id = tid)
  seq := g.seq
  nodup_name := (List.filter_sublist.map BouncerTarget.name).nodup g.nodup_name
  id_le r hr := g.id_le r (KeyedTable.mem_remove.mp hr).1

end Registry

/-- The registry, the setting `settings.mt_env_name`, and whether the router of `.env` is configured. -/
structure State (C : Type*) where
  registry : Registry C
  mtEnvName : Option String
  envConfigured : Bool

def envTargetName (setting : Option String) : String := orElse (some (strip (orElse setting ""))) "mikrotik"

/-- What the add form makes of its fields; `config` is none where the JSON is invalid. -/
structure AddForm (C : Type*) where
  name : String
  kind : String
  dryRun : Bool
  config : Option C
  healthy : Bool

/-- The edit form; `config` is what it makes of the present configuration. -/
structure EditForm (C : Type*) where
  tid : ℕ
  name : Option String
  dryRun : Bool
  config : C → Option C
  healthy : Bool

section
variable {C : Type*} (kinds : List String) (init : String → String → C → Option Bool) (isPrintable : Char → Bool)

/-- The object's `is_configured()`, or none where it cannot be built. -/
def makeBouncer (name kind : String) (config : C) : Option Bool := if kind ∈ kinds then init name kind config else none

/-- The names of the targets of a cycle. -/
def loadAllTargets (s : State C) : List String :=
  (if s.envConfigured then [envTargetName s.mtEnvName] else []) ++
    ((s.registry.rows.filter BouncerTarget.enabled).filter
      (fun r => (makeBouncer kinds init r.name r.kind r.config).isSome)).map BouncerTarget.name

def bouncersAdd (form : AddForm C) (s : State C) : State C :=
  let name := strip form.name
  let kind := strip form.kind
  if name = "" ∨ kind = "" then s
  else if kind ∉ kinds then s
  else match form.config with
    | none => s
    | some config => match makeBouncer kinds init name kind config with
      | none => s
      | some configured =>
        if (configured && form.healthy) = false then s
        else match s.registry.insert ⟨0,name,kind,config,true,form.dryRun⟩ with
          | none => s
          | some registry => { s with registry := registry }

/-- The name that an edit gives to a row. -/
def EditForm.newName (form : EditForm C) (row : BouncerTarget C) : String := strip (orElse form.name row.name)

def bouncersEdit (form : EditForm C) (s : State C) : State C :=
  match s.registry.table.find form.tid with
  | none => s
  | some row => match form.config row.config with
    | none => s
    | some config => match makeBouncer kinds init (form.newName row) row.kind config with
      | none => s
      | some configured =>
        if configured = true ∧ form.healthy = false then s
        else match s.registry.update form.tid
            (fun r => { r with name := form.newName row, config := config, dryRun := form.dryRun }) (fun _ => rfl) with
          | none => s
          | some registry => { s with registry := registry }

def bouncersDelete (tid : ℕ) (s : State C) : State C := { s with registry := s.registry.delete tid }

def bouncersEnvRename (envName : String) (s : State C) : State C :=
  let new := strip envName
  if new = "" ∨ 40 < new.toList.length ∨ new.toList.all isPrintable = false then s
  else if new = envTargetName s.mtEnvName then s
  else if s.registry.rows.any (fun r => sqlLower r.name = sqlLower new) then s
  else { s with mtEnvName := some new }

inductive Request (C : Type*)
  | add (form : AddForm C)
  | edit (form : EditForm C)
  | delete (tid : ℕ)
  | envRename (envName : String)

def State.after (s : State C) : Request C → State C
  | .add form => bouncersAdd kinds init form s
  | .edit form => bouncersEdit kinds init form s
  | .delete tid => bouncersDelete tid s
  | .envRename envName => bouncersEnvRename isPrintable envName s

def Step (s : State C) (q : Request C) (t : State C) : Prop := t = s.after kinds init isPrintable q

/-- No two targets of a cycle share a name. -/
def Unique (s : State C) : Prop := (loadAllTargets kinds init s).Nodup

/-- The add form passes every check. -/
def AddPasses (form : AddForm C) (s : State C) : Prop :=
  strip form.name ≠ "" ∧ strip form.kind ≠ "" ∧ form.healthy = true ∧
  (∃ config, form.config = some config ∧ makeBouncer kinds init (strip form.name) (strip form.kind) config = some true) ∧
  strip form.name ∉ s.registry.rows.map BouncerTarget.name

/-- The edit of a row passes every check. -/
def EditPasses (form : EditForm C) (row : BouncerTarget C) (s : State C) : Prop :=
  (∃ config configured, form.config row.config = some config ∧
    makeBouncer kinds init (form.newName row) row.kind config = some configured ∧ (configured = true → form.healthy = true)) ∧
  ∀ r ∈ s.registry.rows, r.id ≠ row.id → r.name ≠ form.newName row

/-- No request that passes gives an enabled target the name of a configured router of `.env`. -/
def Apart (t : Transition (State C) (Request C)) : Prop :=
  t.before.envConfigured = true → match t.label with
    | .add form => AddPasses kinds init form t.before → strip form.name ≠ envTargetName t.before.mtEnvName
    | .edit form => ∀ row, t.before.registry.table.find form.tid = some row → row.enabled = true →
        EditPasses kinds init form row t.before → form.newName row ≠ envTargetName t.before.mtEnvName
    | .delete _ => True
    | .envRename _ => True

end

section
variable {C : Type*} {kinds : List String} {init : String → String → C → Option Bool} {isPrintable : Char → Bool}
  {s : State C} {g g' : Registry C} {r fresh : BouncerTarget C} {tid : ℕ} {f : BouncerTarget C → BouncerTarget C}

/-- A target of the table that a cycle loads. -/
def Loads (kinds : List String) (init : String → String → C → Option Bool) (r : BouncerTarget C) : Prop :=
  r.enabled = true ∧ (makeBouncer kinds init r.name r.kind r.config).isSome = true

theorem rows_insert (h : g.insert fresh = some g') :
    fresh.name ∉ g.rows.map BouncerTarget.name ∧ g'.rows = g.rows ++ [{ fresh with id := g.seq + 1 }] := by
  unfold Registry.insert at h
  split at h
  · cases h
  · next hfree =>
    cases h
    exact ⟨hfree,rfl⟩

theorem rows_update {hf : ∀ r, (f r).id = r.id} (h : g.update tid f hf = some g') :
    g'.rows = g.rows.map (fun r => if r.id = tid then f r else r) ∧
      ((g.rows.map (fun r => if r.id = tid then f r else r)).map BouncerTarget.name).Nodup := by
  unfold Registry.update at h
  split at h
  · next hn =>
    cases h
    exact ⟨rfl,hn⟩
  · cases h

/-- With the names of the table distinct, only the router of `.env` can clash with a target. -/
theorem unique_iff : Unique kinds init s ↔
    (s.envConfigured = true → ∀ r ∈ s.registry.rows, Loads kinds init r → r.name ≠ envTargetName s.mtEnvName) := by
  have hnodup : (((s.registry.rows.filter BouncerTarget.enabled).filter
      (fun r => (makeBouncer kinds init r.name r.kind r.config).isSome)).map BouncerTarget.name).Nodup :=
    ((List.filter_sublist.trans List.filter_sublist).map BouncerTarget.name).nodup s.registry.nodup_name
  unfold Unique loadAllTargets
  cases s.envConfigured with
  | false => simpa using hnodup
  | true =>
    simp only [if_true, List.singleton_append, List.nodup_cons, hnodup, and_true, true_imp_iff]
    constructor
    · intro hnot r hr ⟨hen,hmake⟩ he
      exact hnot (List.mem_map.mpr ⟨r,List.mem_filter.mpr ⟨List.mem_filter.mpr ⟨hr,hen⟩,hmake⟩,he⟩)
    · intro hall hmem
      obtain ⟨r,hr,he⟩ := List.mem_map.mp hmem
      obtain ⟨hr,hmake⟩ := List.mem_filter.mp hr
      obtain ⟨hr,hen⟩ := List.mem_filter.mp hr
      exact hall r hr ⟨hen,hmake⟩ he

/-- A passed add form puts one enabled target at the end of the table. -/
theorem bouncersAdd_cases (kinds : List String) (init : String → String → C → Option Bool) (form : AddForm C) (s : State C) :
    (bouncersAdd kinds init form s = s ∧ ¬ AddPasses kinds init form s) ∨
    (AddPasses kinds init form s ∧ ∃ config registry, form.config = some config ∧
      (makeBouncer kinds init (strip form.name) (strip form.kind) config).isSome = true ∧
      s.registry.insert ⟨0,strip form.name,strip form.kind,config,true,form.dryRun⟩ = some registry ∧
      bouncersAdd kinds init form s = { s with registry := registry }) := by
  unfold bouncersAdd AddPasses
  dsimp only
  by_cases hblank : strip form.name = "" ∨ strip form.kind = ""
  · rw [if_pos hblank]
    exact Or.inl ⟨rfl,fun hp => hblank.elim hp.1 hp.2.1⟩
  · rw [if_neg hblank]
    push Not at hblank
    by_cases hkind : strip form.kind ∈ kinds
    · rw [if_neg (not_not.mpr hkind)]
      cases hconfig : form.config with
      | none => exact Or.inl ⟨rfl,by simp⟩
      | some config =>
        cases hmake : makeBouncer kinds init (strip form.name) (strip form.kind) config with
        | none => exact Or.inl ⟨by simp [hmake],by simp [hmake]⟩
        | some configured =>
          by_cases hok : (configured && form.healthy) = true
          · obtain ⟨hconf,hhealthy⟩ := Bool.and_eq_true_iff.mp hok
            cases hins : s.registry.insert ⟨0,strip form.name,strip form.kind,config,true,form.dryRun⟩ with
            | none =>
              refine Or.inl ⟨by simp [hmake, hok, hins],fun hp => ?_⟩
              unfold Registry.insert at hins
              split at hins
              · next htaken => exact hp.2.2.2.2 htaken
              · cases hins
            | some registry =>
              obtain ⟨hfree,_⟩ := rows_insert hins
              exact Or.inr ⟨⟨hblank.1,hblank.2,hhealthy,⟨config,rfl,by rw [hmake, hconf]⟩,hfree⟩,config,registry,rfl,
                by rw [hmake]; rfl,hins,by simp [hmake, hok, hins]⟩
          · refine Or.inl ⟨by simp [hmake, hok],?_⟩
            rintro ⟨_,_,hhealthy,⟨c,hc,hm⟩,_⟩
            rw [← Option.some.inj hc, hmake] at hm
            exact hok (by rw [Option.some.inj hm, hhealthy]; rfl)
    · rw [if_pos hkind]
      refine Or.inl ⟨rfl,?_⟩
      rintro ⟨_,_,_,⟨c,_,hm⟩,_⟩
      unfold makeBouncer at hm
      rw [if_neg hkind] at hm
      cases hm

/-- An update keeps the names distinct exactly when no other row has the new name. -/
theorem nodup_update_iff (f : BouncerTarget C → BouncerTarget C) {row : BouncerTarget C} (hrow : g.table.find tid = some row) :
    ((g.rows.map (fun r => if r.id = tid then f r else r)).map BouncerTarget.name).Nodup ↔
      ∀ r ∈ g.rows, r.id ≠ row.id → r.name ≠ (f row).name := by
  obtain ⟨hmem,hid⟩ := KeyedTable.find_eq_some.mp hrow
  have hsame : ∀ r ∈ g.rows, r.id = tid → r = row := by
    intro r hr he
    exact List.inj_on_of_nodup_map g.table.nodup hr hmem (he.trans hid.symm)
  rw [List.map_map]
  constructor
  · intro hn r hr hne he
    have heq : BouncerTarget.name (if r.id = tid then f r else r) = BouncerTarget.name (if row.id = tid then f row else row) := by
      rw [if_neg (hid ▸ hne), if_pos hid, he]
    exact hne (congrArg BouncerTarget.id (List.inj_on_of_nodup_map hn hr hmem heq))
  · intro hfree
    refine List.Nodup.map_on (fun x hx y hy he => ?_) g.table.nodup.of_map
    dsimp only [Function.comp_apply] at he
    by_cases hxt : x.id = tid
    · by_cases hyt : y.id = tid
      · rw [hsame x hx hxt, hsame y hy hyt]
      · rw [if_pos hxt, if_neg hyt, hsame x hx hxt] at he
        exact absurd he.symm (hfree y hy (hid ▸ hyt))
    · by_cases hyt : y.id = tid
      · rw [if_neg hxt, if_pos hyt, hsame y hy hyt] at he
        exact absurd he (hfree x hx (hid ▸ hxt))
      · rw [if_neg hxt, if_neg hyt] at he
        exact List.inj_on_of_nodup_map g.nodup_name hx hy he

theorem taken_of_update_none {row : BouncerTarget C} {hf : ∀ r, (f r).id = r.id} (hrow : g.table.find tid = some row)
    (h : g.update tid f hf = none) : ¬ ∀ r ∈ g.rows, r.id ≠ row.id → r.name ≠ (f row).name := by
  intro hfree
  unfold Registry.update at h
  rw [dif_pos ((nodup_update_iff f hrow).mpr hfree)] at h
  cases h

/-- A passed edit gives one row its new name and configuration. -/
theorem bouncersEdit_cases (kinds : List String) (init : String → String → C → Option Bool) (form : EditForm C) (s : State C) :
    (bouncersEdit kinds init form s = s ∧
      ∀ row, s.registry.table.find form.tid = some row → ¬ EditPasses kinds init form row s) ∨
    ∃ row config registry, s.registry.table.find form.tid = some row ∧ EditPasses kinds init form row s ∧
      (makeBouncer kinds init (form.newName row) row.kind config).isSome = true ∧
      registry.rows = s.registry.rows.map (fun r => if r.id = form.tid then
        { r with name := form.newName row, config := config, dryRun := form.dryRun } else r) ∧
      bouncersEdit kinds init form s = { s with registry := registry } := by
  unfold bouncersEdit EditPasses
  cases hrow : s.registry.table.find form.tid with
  | none => exact Or.inl ⟨rfl,by simp⟩
  | some row =>
    dsimp only
    cases hconfig : form.config row.config with
    | none =>
      refine Or.inl ⟨rfl,?_⟩
      rintro q hq ⟨⟨c,_,hc,_⟩,_⟩
      rw [← Option.some.inj hq, hconfig] at hc
      cases hc
    | some config =>
      dsimp only
      cases hmake : makeBouncer kinds init (form.newName row) row.kind config with
      | none =>
        refine Or.inl ⟨rfl,?_⟩
        rintro q hq ⟨⟨c,_,hc,hm,_⟩,_⟩
        rw [← Option.some.inj hq] at hc hm
        rw [← Option.some.inj (hconfig.symm.trans hc), hmake] at hm
        cases hm
      | some configured =>
        dsimp only
        by_cases hsick : configured = true ∧ form.healthy = false
        · rw [if_pos hsick]
          refine Or.inl ⟨rfl,?_⟩
          rintro q hq ⟨⟨c,b,hc,hm,hh⟩,_⟩
          rw [← Option.some.inj hq] at hc hm
          rw [← Option.some.inj (hconfig.symm.trans hc), hmake] at hm
          rw [hh ((Option.some.inj hm) ▸ hsick.1)] at hsick
          cases hsick.2
        · rw [if_neg hsick]
          cases hup : s.registry.update form.tid
              (fun r => { r with name := form.newName row, config := config, dryRun := form.dryRun }) (fun _ => rfl) with
          | none =>
            refine Or.inl ⟨rfl,?_⟩
            rintro q hq ⟨_,hfree⟩
            rw [← Option.some.inj hq] at hfree
            exact taken_of_update_none hrow hup hfree
          | some registry =>
            obtain ⟨hrows,hn⟩ := rows_update hup
            refine Or.inr ⟨row,config,registry,rfl,⟨⟨config,configured,hconfig,hmake,fun hc => ?_⟩,?_⟩,by rw [hmake]; rfl,hrows,rfl⟩
            · by_contra hh
              exact hsick ⟨hc,by simpa using hh⟩
            · exact (nodup_update_iff _ hrow).mp hn

/-- Adding keeps the names apart exactly when the name it may give is not that of the router. -/
theorem unique_add_iff (form : AddForm C) (h : Unique kinds init s) :
    Unique kinds init (bouncersAdd kinds init form s) ↔ (s.envConfigured = true →
      AddPasses kinds init form s → strip form.name ≠ envTargetName s.mtEnvName) := by
  rcases bouncersAdd_cases kinds init form s with ⟨heq,hno⟩ | ⟨hpass,config,registry,_,hmake,hins,heq⟩
  · rw [heq]
    exact ⟨fun _ _ hp => absurd hp hno,fun _ => h⟩
  · rw [heq, unique_iff]
    obtain ⟨_,hrows⟩ := rows_insert hins
    have hold := unique_iff.mp h
    simp only [hrows]
    constructor
    · intro hall henv _
      exact hall henv _ (List.mem_append_right _ (List.mem_singleton.mpr rfl)) ⟨rfl,hmake⟩
    · intro hne henv r hr hload
      rcases List.mem_append.mp hr with hr | hr
      · exact hold henv r hr hload
      · rw [List.mem_singleton.mp hr]
        exact hne henv hpass

/-- So does editing, for an enabled row. -/
theorem unique_edit_iff (form : EditForm C) (h : Unique kinds init s) :
    Unique kinds init (bouncersEdit kinds init form s) ↔ (s.envConfigured = true →
      ∀ row, s.registry.table.find form.tid = some row → row.enabled = true → EditPasses kinds init form row s →
        form.newName row ≠ envTargetName s.mtEnvName) := by
  rcases bouncersEdit_cases kinds init form s with ⟨heq,hno⟩ | ⟨row,config,registry,hrow,hpass,hmake,hrows,heq⟩
  · rw [heq]
    exact ⟨fun _ _ row hrow _ hp => absurd hp (hno row hrow),fun _ => h⟩
  · rw [heq, unique_iff]
    have hold := unique_iff.mp h
    obtain ⟨hmem,hid⟩ := KeyedTable.find_eq_some.mp hrow
    simp only [hrows]
    constructor
    · intro hall henv q hq hen _
      obtain rfl : row = q := Option.some.inj (hrow.symm.trans hq)
      exact hall henv _ (List.mem_map.mpr ⟨row,hmem,if_pos hid⟩) ⟨hen,hmake⟩
    · intro hne henv r hr hload
      obtain ⟨q,hq,rfl⟩ := List.mem_map.mp hr
      by_cases hqt : q.id = form.tid
      · have hqr : q = row := List.inj_on_of_nodup_map s.registry.table.nodup hq hmem (hqt.trans hid.symm)
        rw [if_pos hqt] at hload ⊢
        exact hne henv row hrow (hqr ▸ hload.1) hpass
      · rw [if_neg hqt] at hload ⊢
        exact hold henv q hq hload

theorem unique_delete (tid : ℕ) (h : Unique kinds init s) : Unique kinds init (bouncersDelete tid s) := by
  have hold := unique_iff.mp h
  refine unique_iff.mpr (fun henv r hr hload => hold henv r ?_ hload)
  exact (KeyedTable.mem_remove.mp hr).1

/-- A rename looks into the whole table, in any case of letters. -/
theorem unique_envRename (envName : String) (h : Unique kinds init s) :
    Unique kinds init (bouncersEnvRename isPrintable envName s) := by
  unfold bouncersEnvRename
  dsimp only
  split
  · exact h
  · next hshape =>
    split
    · exact h
    · split
      · exact h
      · next hclash =>
        refine unique_iff.mpr (fun _ r hr _ he => hclash ?_)
        have hne : strip envName ≠ "" := fun hblank => hshape (Or.inl hblank)
        have hname : envTargetName (some (strip envName)) = strip envName := by
          unfold envTargetName
          rw [orElse_some hne, strip_strip, orElse_some hne]
        have hrn : r.name = strip envName := he.trans hname
        exact List.any_eq_true.mpr ⟨r,hr,decide_eq_true (congrArg sqlLower hrn)⟩

theorem step_add (form : AddForm C) (s : State C) :
    Step kinds init isPrintable s (.add form) (bouncersAdd kinds init form s) := rfl

/-- Along a run the names stay distinct exactly when no add and no edit that passes gives an enabled
target the name of a configured router of `.env`. -/
theorem names_unique_iff (kinds : List String) (init : String → String → C → Option Bool) (isPrintable : Char → Bool)
    {s0 : State C} (h0 : Unique kinds init s0) {ts : List (Transition (State C) (Request C))}
    (h : Trace (Step kinds init isPrintable) s0 ts s) :
    (∀ t ∈ ts, Unique kinds init t.after) ↔ ∀ t ∈ ts, Apart kinds init t := by
  have hiff : ∀ t : Transition (State C) (Request C), Step kinds init isPrintable t.before t.label t.after →
      Unique kinds init t.before → (Unique kinds init t.after ↔ Apart kinds init t) := by
    rintro ⟨s,q,t⟩ hst hs
    obtain rfl : t = s.after kinds init isPrintable q := hst
    unfold Apart
    dsimp only [State.after]
    cases q with
    | add form => exact unique_add_iff form hs
    | edit form => exact unique_edit_iff form hs
    | delete tid =>
      dsimp only
      exact iff_of_true (unique_delete tid hs) (fun _ => trivial)
    | envRename envName =>
      dsimp only
      exact iff_of_true (unique_envRename envName hs) (fun _ => trivial)
  exact h.forall_iff (I := Unique kinds init) (A := fun _ => True) h0 (fun _ _ => trivial)
    (fun t hst _ hC hI => (hiff t hst hI).mpr hC) (fun t hst _ hI => hiff t hst hI)

end

/-! ## A second router named like the first -/

def plainInit : String → String → Unit → Option Bool := fun _ _ _ => some true

def envOnly : State Unit := ⟨.empty,none,true⟩

def secondRouter : AddForm Unit := ⟨"mikrotik","mikrotik",true,some (),true⟩

theorem names_unique_iff_example :
    (∀ t ∈ [(⟨envOnly,.add secondRouter,bouncersAdd ["mikrotik"] plainInit secondRouter envOnly⟩ : Transition (State Unit) (Request Unit))],
      Unique ["mikrotik"] plainInit t.after) ↔
    ∀ t ∈ [(⟨envOnly,.add secondRouter,bouncersAdd ["mikrotik"] plainInit secondRouter envOnly⟩ : Transition (State Unit) (Request Unit))],
      Apart ["mikrotik"] plainInit t :=
  names_unique_iff ["mikrotik"] plainInit Char.isAlphanum (by unfold Unique; decide) (Trace.single (step_add secondRouter envOnly))

/-- The add form takes the name that the router of `.env` has by default. -/
theorem added_target_clashes :
    Unique ["mikrotik"] plainInit envOnly ∧ ¬ Unique ["mikrotik"] plainInit (bouncersAdd ["mikrotik"] plainInit secondRouter envOnly) := by
  constructor
  · unfold Unique
    decide
  · have hnames : loadAllTargets ["mikrotik"] plainInit (bouncersAdd ["mikrotik"] plainInit secondRouter envOnly) =
        ["mikrotik","mikrotik"] := by decide
    unfold Unique
    rw [hnames]
    decide

end Protek.Targets.Names
