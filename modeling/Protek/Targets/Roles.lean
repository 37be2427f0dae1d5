import Protek.Targets.DryRun

/-! # The role of a host

The role decides at the start of a process whether it runs the poller, and nothing else
asks for it. A process that starts on a standby has no poller, whatever happens to the role
afterwards; one that starts on a primary keeps its poller until it exits.
-/
namespace Protek.Targets
open Foundation Foundation.PyText Foundation.Clock Protek.Store Protek.Policy Protek.Diff

/-- Since a process started on a primary, none has exited. -/
def StartedAsPrimary (E : Env) (ts : List (Transition World Event)) : Prop :=
  ∃ us u vs, ts = us ++ u :: vs ∧ u.label = .start ∧ E.role u.before.store.db.settings = .primary ∧
    ∀ v ∈ vs, v.label ≠ .stop

def IsTick : Event → Prop
  | .tick _ _ _ _ _ => True
  | _ => False

/-- A sync route or the self-test. -/
def IsManual : Event → Prop
  | .apiSyncRun _ _ => True
  | .v1SyncRun _ _ => True
  | .syntheticRun _ _ => True
  | _ => False

section
variable {E : Env} {w : World}

theorem StartedAsPrimary.snoc {ts : List (Transition World Event)} {t : Transition World Event}
    (h : StartedAsPrimary E ts) (ht : t.label ≠ .stop) : StartedAsPrimary E (ts ++ [t]) := by
  obtain ⟨us,u,vs,rfl,hstart,hrole,hvs⟩ := h
  refine ⟨us,u,vs ++ [t],by simp,hstart,hrole,?_⟩
  intro v hv
  rcases List.mem_append.mp hv with hv | hv
  · exact hvs v hv
  · rw [List.mem_singleton.mp hv]
    exact ht

/-- A step into a world with a poller is a start on a primary, or keeps the poller running. -/
theorem poller_step {e : Event} {w' : World} (hs : Step E w e w') (hp : w'.poller.isSome = true) :
    (e = .start ∧ E.role w.store.db.settings = .primary) ∨ (w.poller.isSome = true ∧ e ≠ .stop) := by
  cases hs with
  | start =>
    rcases World.start_cases E w with hw | ⟨hrole,_⟩
    · exact Or.inr ⟨hw ▸ hp,by simp⟩
    · exact Or.inl ⟨rfl,hrole⟩
  | stop => cases hp
  | promote => exact Or.inr ⟨hp,by simp⟩
  | demote => exact Or.inr ⟨hp,by simp⟩
  | @saveSettings dry batchCap owns =>
    refine Or.inr ⟨?_,by simp⟩
    unfold World.saveSettings at hp
    cases owns with
    | false => exact hp
    | true => simpa using hp
  | tick hpoller hsame => exact Or.inr ⟨by rw [hpoller]; rfl,by simp⟩
  | apiSyncRun => exact Or.inr ⟨by rwa [World.apiSyncRun, World.poller_cycle] at hp,by simp⟩
  | v1SyncRun => exact Or.inr ⟨by rwa [World.v1SyncRun, World.poller_cycle] at hp,by simp⟩
  | syntheticRun => exact Or.inr ⟨by rwa [World.poller_selfTest] at hp,by simp⟩
  | elsewhere hsame => exact Or.inr ⟨hp,by simp⟩

theorem startedAsPrimary_of_poller {w₀ : World} {ts : List (Transition World Event)} (h : Trace (Step E) w₀ ts w)
    (h0 : w₀.poller = none) (hp : w.poller.isSome = true) : StartedAsPrimary E ts := by
  induction h with
  | nil => simp [h0] at hp
  | @snoc ts s t e h hs ih =>
    rcases poller_step hs hp with ⟨he,hrole⟩ | ⟨hbefore,hne⟩
    · exact ⟨ts,⟨s,e,t⟩,[],rfl,he,hrole,by simp⟩
    · exact (ih hbefore).snoc hne

/-- Only ticks and manual triggers call an `apply`. -/
theorem applied_of_other {e : Event} {w' : World} (hs : Step E w e w') (htick : ¬ IsTick e) (hman : ¬ IsManual e) :
    w'.applied = w.applied := by
  cases hs with
  | start =>
    rcases World.start_cases E w with hw | ⟨_,p,hw⟩
    · rw [hw]
    · rw [hw]
  | stop => rfl
  | promote => rfl
  | demote => rfl
  | saveSettings => rfl
  | tick hp hsame => exact absurd trivial htick
  | apiSyncRun => exact absurd trivial hman
  | v1SyncRun => exact absurd trivial hman
  | syntheticRun => exact absurd trivial hman
  | elsewhere hsame => rfl

end

/-- In every run of a host that begins without a poller, a step that calls an `apply` is a manual
trigger, or a tick of a poller whose process started while the role was primary. -/
theorem pushes_start_as_primary (E : Env) {w₀ w : World} {ts us vs : List (Transition World Event)}
    {t : Transition World Event} (h : Trace (Step E) w₀ ts w) (h0 : w₀.poller = none) (hts : ts = us ++ t :: vs)
    (happlied : t.after.applied ≠ t.before.applied) : IsManual t.label ∨ (IsTick t.label ∧ StartedAsPrimary E us) := by
  subst hts
  have hs : Step E t.before t.label t.after := h.mem_step t (by simp)
  by_cases hman : IsManual t.label
  · exact Or.inl hman
  · by_cases htick : IsTick t.label
    · refine Or.inr ⟨htick,startedAsPrimary_of_poller h.take h0 ?_⟩
      obtain ⟨v,e,v'⟩ := t
      change Step E v e v' at hs
      cases hs with
      | tick hp hsame =>
        change v.poller.isSome = true
        rw [hp]
        rfl
      | start => exact htick.elim
      | stop => exact htick.elim
      | promote => exact htick.elim
      | demote => exact htick.elim
      | saveSettings => exact htick.elim
      | apiSyncRun => exact htick.elim
      | v1SyncRun => exact htick.elim
      | syntheticRun => exact htick.elim
      | elsewhere hsame => exact htick.elim
    · exact absurd (applied_of_other hs htick hman) happlied

/-! ## A host that is demoted and not restarted -/

/-- A host out of dry-run with one ban and one live target. -/
def liveHost : World :=
  { switchedOn with store := { switchedOn.store with db := switchedOn.store.db.setSetting "settings.dry_run" "0" } }

def demotedHost : World :=
  (liveHost.start (exampleEnv none)).withDb ((liveHost.start (exampleEnv none)).store.db.setSetting "ha.role" "standby")

def tickOf (w : World) : Transition World Event :=
  ⟨w,.tick 0 true w.store.db [edge] [],w.tick (exampleEnv none) (w.poller.getD ⟨true,1,0⟩) 0 true w.store.db [edge] []⟩

def demotedRun : List (Transition World Event) :=
  [⟨liveHost,.start,liveHost.start (exampleEnv none)⟩,⟨liveHost.start (exampleEnv none),.demote,demotedHost⟩] ++
    [tickOf demotedHost]

theorem demotedRun_trace : Trace (Step (exampleEnv none)) liveHost demotedRun (tickOf demotedHost).after :=
  ((Trace.single Step.start).snoc Step.demote).snoc (Step.tick rfl ⟨rfl,rfl⟩)

theorem applied_demotedRun : (tickOf demotedHost).after.applied =
    [⟨"edge",[("203.0.113.7","protek:local:ssh-bf:7")],[]⟩] := by decide

/-- A poller goes on writing to the router after its host has become the standby. -/
theorem demoted_poller_pushes :
    ∃ E ts w, Trace (Step E) liveHost ts w ∧ ∃ t ∈ ts, IsTick t.label ∧ E.role t.before.store.db.settings = .standby ∧
      t.after.applied ≠ t.before.applied := by
  refine ⟨exampleEnv none,demotedRun,_,demotedRun_trace,tickOf demotedHost,by simp [demotedRun],trivial,by decide,?_⟩
  rw [applied_demotedRun]
  exact List.cons_ne_nil _ _

theorem pushes_start_as_primary_example :
    (tickOf demotedHost).after.applied ≠ (tickOf demotedHost).before.applied ∧
    (IsManual (tickOf demotedHost).label ∨ (IsTick (tickOf demotedHost).label ∧ StartedAsPrimary (exampleEnv none)
      [⟨liveHost,.start,liveHost.start (exampleEnv none)⟩,⟨liveHost.start (exampleEnv none),.demote,demotedHost⟩])) := by
  have happlied : (tickOf demotedHost).after.applied ≠ (tickOf demotedHost).before.applied := by
    rw [applied_demotedRun]
    exact List.cons_ne_nil _ _
  exact ⟨happlied,pushes_start_as_primary (exampleEnv none) demotedRun_trace rfl rfl happlied⟩

end Protek.Targets
