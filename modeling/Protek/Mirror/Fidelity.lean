import Protek.Mirror.Poller

/-! # When the mirror is faithful

Along a run without failures the mirror follows LAPI for as long as no row loses
the decision whose id it holds while an older decision of the same identity
stays active. The row of an identity holds one id, the last one upserted, and a
deletion goes by that id alone.
-/
namespace Protek.Mirror
open Foundation Foundation.Clock Protek.Store

/-- Where the decision that an active row holds has ended and LAPI still has the
identity, a new decision of the identity is among what the stream will deliver. -/
def NothingShadowed (name : String) (w : World) : Prop :=
  ∀ r ∈ w.db.activeRows, r.originSource = name → (∃ g ∈ w.lapi.gone, g.id = r.lapiId) →
    (∃ d ∈ w.lapi.active, d.listed = true ∧ d.identity = r.identity) →
    ∃ d ∈ w.lapi.active, d.id ∈ w.lapi.pending ∧ d.listed = true ∧ d.identity = r.identity

theorem nothingShadowed_iff {name : String} {w : World} :
    NothingShadowed name w ↔ decisionShape.Unshadowed w.lapi Listed (activeView w.db name) := by
  have hkey : ∀ {d : LapiDecision}, Listed d → decisionShape.key d = d.identity :=
    fun hl => recordedKey_of_inScope (inScope_of_listed hl)
  constructor
  · rintro h k p hp ⟨g,hg,hid⟩ ⟨d,hd,hl,hdk⟩
    obtain ⟨r,hr,hsrc,hrk,hrow⟩ := activeView_eq_some.mp hp
    have hrid : r.lapiId = p.1 := congrArg Prod.fst hrow
    obtain ⟨e,he,hpend,hle,hek⟩ := h r hr hsrc ⟨g,hg,hid.trans hrid.symm⟩
      ⟨d,hd,hl,(hkey hl).symm.trans (hdk.trans hrk.symm)⟩
    exact ⟨e,he,hpend,hle,(hkey hle).trans (hek.trans hrk)⟩
  · rintro h r hr hsrc ⟨g,hg,hid⟩ ⟨d,hd,hl,hdk⟩
    obtain ⟨e,he,hpend,hle,hek⟩ := h r.identity (r.lapiId,r.type)
      (activeView_eq_some.mpr ⟨r,hr,hsrc,rfl,rfl⟩) ⟨g,hg,hid⟩ ⟨d,hd,hl,(hkey hl).trans hdk⟩
    exact ⟨e,he,hpend,hle,(hkey hle).symm.trans hek⟩

/-- What holds between pulls. -/
structure Following (name : String) (w : World) : Prop where
  bans : ∀ d ∈ w.lapi.active, d.type = "ban"
  tracks : w.bootstrapDone = true → decisionShape.Tracks w.lapi Listed (activeView w.db name)

section
variable {name : String} {w w' : World} {now : Instant} {a : Answer}

theorem Step.current_of_bootstrap (h : Step name w (.pull now a none) w') (hflag : w.bootstrapDone = false) :
    decisionShape.Current w'.lapi Listed (activeView w'.db name) ∧ w'.lapi.active = w.lapi.active := by
  cases h with
  | bootstrap _ hip hrange hl =>
    have hact : ∀ lapi : Lapi, lapi = w.lapi ∨ lapi = w.lapi.advance → lapi.active = w.lapi.active := by
      rintro _ (rfl | rfl) <;> rfl
    refine ⟨?_,hact _ hl⟩
    change decisionShape.Current _ Listed (activeView (execAll w.db (bootstrapOf name now a w.db)) name)
    rw [view_bootstrap]
    apply Shape.current_load
    intro d
    rw [Lapi.mem_listing hip hrange, hact _ hl]
  | stream htrue _ =>
    rw [htrue] at hflag
    cases hflag

/-- A pull that succeeds is faithful exactly when nothing was shadowed. -/
theorem Step.faithful_iff_of_stream (h : Step name w (.pull now a none) w') (hflag : w.bootstrapDone = true)
    (hi : Following name w) : (Faithful name w' ↔ NothingShadowed name w) ∧
      (NothingShadowed name w → decisionShape.Current w'.lapi Listed (activeView w'.db name)) ∧
      w'.lapi.active = w.lapi.active := by
  cases h with
  | bootstrap hfalse _ _ _ =>
    rw [hfalse] at hflag
    cases hflag
  | stream _ hs =>
    have hdelta := delta_listed hs (fun d hd => hi.bans d ((hs.mem_new d).mp hd).1)
    have hview : activeView (execAll w.db (executed none (streamOf name now a))) name = _ :=
      view_stream name now a w.db
    rw [faithful_iff, nothingShadowed_iff]
    simp only [hview, reduceCtorEq, if_false]
    refine ⟨Shape.faithful_replay_iff (hi.tracks hflag) hdelta,fun hu => ?_,rfl⟩
    -- moving the cursor leaves the active decisions as they are
    have hc := Shape.current_replay (hi.tracks hflag) hdelta hu
    exact ⟨hc.held,hc.covered⟩

theorem Following.step {e : Event} (hs : Step name w e w') (hi : Following name w)
    (hban : ∀ d, e = .add d → d.type = "ban") (hok : ∀ now a f, e = .pull now a f → f = none)
    (hc : ∀ now a f, e = .pull now a f → w.bootstrapDone = true → NothingShadowed name w) : Following name w' := by
  cases e with
  | add d =>
    cases hs with
    | add hd =>
      refine ⟨?_,fun hflag => (hi.tracks hflag).add hd⟩
      intro e he
      rcases List.mem_append.mp he with he | he
      · exact hi.bans e he
      · rw [List.mem_singleton.mp he]
        exact hban d rfl
  | remove i =>
    cases hs
    exact ⟨fun d hd => hi.bans d (Feed.mem_retire.mp hd).1,fun hflag => (hi.tracks hflag).retire i⟩
  | pull now a f =>
    cases hok now a f rfl
    have key : decisionShape.Current w'.lapi Listed (activeView w'.db name) ∧ w'.lapi.active = w.lapi.active := by
      cases hflag : w.bootstrapDone with
      | false => exact hs.current_of_bootstrap hflag
      | true =>
        obtain ⟨_,hcur,hact⟩ := hs.faithful_iff_of_stream hflag hi
        exact ⟨hcur (hc now a none rfl hflag),hact⟩
    exact ⟨fun d hd => hi.bans d (key.2 ▸ hd),fun _ => key.1.tracks rfl⟩

end

/-- Along a run without failures, a law after each pull is a condition before each incremental one,
where full pulls meet the law and each incremental one does exactly under the condition. -/
theorem pulls_iff {name : String} {w₀ w : World} {ts : List (Transition World Event)} {I G : World → Prop}
    {A : Transition World Event → Prop} {C : World → Answer → Prop} (h : Trace (Step name) w₀ ts w) (h0 : I w₀)
    (hA : ∀ t ∈ ts, A t) (hok : ∀ t ∈ ts, ∀ now a f, t.label = .pull now a f → f = none)
    (hkeep : ∀ t : Transition World Event, Step name t.before t.label t.after → A t →
      (∀ now a f, t.label = .pull now a f → f = none) →
      (∀ now a f, t.label = .pull now a f → t.before.bootstrapDone = true → C t.before a) → I t.before → I t.after)
    (hfull : ∀ (v v' : World) (now : Instant) (a : Answer), Step name v (.pull now a none) v' →
      A ⟨v,.pull now a none,v'⟩ → v.bootstrapDone = false → G v')
    (hstream : ∀ (v v' : World) (now : Instant) (a : Answer), Step name v (.pull now a none) v' →
      A ⟨v,.pull now a none,v'⟩ → v.bootstrapDone = true → I v → (G v' ↔ C v a)) :
    (∀ t ∈ ts, ∀ now a f, t.label = .pull now a f → G t.after) ↔
    ∀ t ∈ ts, ∀ now a f, t.label = .pull now a f → t.before.bootstrapDone = true → C t.before a := by
  refine h.forall_iff (I := I) (A := fun t => A t ∧ ∀ now a f, t.label = .pull now a f → f = none)
    h0 (fun t ht => ⟨hA t ht,hok t ht⟩) ?_ ?_
  · intro t hs hAt hc hi
    exact hkeep t hs hAt.1 hAt.2 hc hi
  · rintro ⟨before,label,after⟩ hs hAt hi
    refine forall_congr' (fun now => forall_congr' (fun a => forall_congr' (fun f => imp_congr_right (fun hl => ?_))))
    obtain rfl : label = .pull now a f := hl
    cases hAt.2 now a f rfl
    cases hflag : before.bootstrapDone with
    | false => simp [hfull before after now a hs hAt.1 hflag]
    | true =>
      rw [hstream before after now a hs hAt.1 hflag hi]
      simp

/-- Along a run without failures, every pull leaves the mirror faithful to LAPI exactly
when no incremental pull of the run starts with a shadowed row. -/
theorem mirror_faithful_iff (name : String) (db : Db) {ts : List (Transition World Event)} {w : World}
    (h : Trace (Step name) (start db) ts w) (hban : ∀ t ∈ ts, ∀ d, t.label = .add d → d.type = "ban")
    (hok : ∀ t ∈ ts, ∀ now a f, t.label = .pull now a f → f = none) :
    (∀ t ∈ ts, ∀ now a f, t.label = .pull now a f → Faithful name t.after) ↔
    ∀ t ∈ ts, ∀ now a f, t.label = .pull now a f → t.before.bootstrapDone = true → NothingShadowed name t.before := by
  refine pulls_iff (I := Following name) (A := fun t => ∀ d, t.label = .add d → d.type = "ban")
    (G := Faithful name) (C := fun v _ => NothingShadowed name v) h ⟨by simp [start, Feed.empty],by simp [start]⟩ hban hok ?_ ?_ ?_
  · intro t hs hA hok hc hi
    exact hi.step hs hA hok hc
  · intro v v' now a hs _ hflag
    exact faithful_iff.mpr (hs.current_of_bootstrap hflag).1.faithful
  · intro v v' now a hs _ hflag hi
    exact (hs.faithful_iff_of_stream hflag hi).1

/-! ## Overlapping bans of one identity -/

def banA : LapiDecision := { id := 1, value := "203.0.113.7", scope := "Ip", type := "ban", scenario := "ssh-bf" }

/-- The re-ban that LAPI issues before the first one has expired. -/
def banB : LapiDecision := { banA with id := 2 }

def bothListed : Answer := { ip := [banA,banB] }

def secondDeleted : Answer := { deleted := [banB] }

def overlap1 : World := { start Db.empty with lapi := (start Db.empty).lapi.add banA (by unfold Feed.Unused; decide) }

def overlap2 : World := { overlap1 with lapi := overlap1.lapi.add banB (by unfold Feed.Unused; decide) }

def overlap3 : World :=
  ⟨execAll overlap2.db (bootstrapOf "local" 0 bothListed overlap2.db),overlap2.lapi.advance,true⟩

def overlap4 : World := { overlap3 with lapi := overlap3.lapi.retire 2 }

def overlap5 : World := ⟨execAll overlap4.db (streamOf "local" 1 secondDeleted),overlap4.lapi.advance,true⟩

/-- Both bans are listed at the start; then the second one ends. -/
def overlapRun : List (Transition World Event) :=
  [⟨start Db.empty,.add banA,overlap1⟩,⟨overlap1,.add banB,overlap2⟩,⟨overlap2,.pull 0 bothListed none,overlap3⟩,
    ⟨overlap3,.remove 2,overlap4⟩,⟨overlap4,.pull 1 secondDeleted none,overlap5⟩]

theorem overlapRun_trace : Trace (Step "local") (start Db.empty) overlapRun overlap5 := by
  have h1 : Step "local" (start Db.empty) (.add banA) overlap1 := .add _
  have h2 : Step "local" overlap1 (.add banB) overlap2 := .add _
  have h3 : Step "local" overlap2 (.pull 0 bothListed none) overlap3 :=
    .bootstrap (f := none) rfl (by unfold Lapi.ServesDecisions; decide) (by unfold Lapi.ServesDecisions; decide)
      (Or.inr rfl)
  have h4 : Step "local" overlap3 (.remove 2) overlap4 := .remove
  have h5 : Step "local" overlap4 (.pull 1 secondDeleted none) overlap5 :=
    .stream (f := none) rfl (by unfold Lapi.ServesStream; decide)
  exact ((((Trace.nil.snoc h1).snoc h2).snoc h3).snoc h4).snoc h5

theorem overlapRun_bans : ∀ t ∈ overlapRun, ∀ d, t.label = .add d → d.type = "ban" := by
  simp [overlapRun, banA, banB]

theorem overlapRun_succeeds : ∀ t ∈ overlapRun, ∀ now a f, t.label = .pull now a f → f = none := by
  simp [overlapRun]

theorem mirror_faithful_overlap :
    (∀ t ∈ overlapRun, ∀ now a f, t.label = .pull now a f → Faithful "local" t.after) ↔
    ∀ t ∈ overlapRun, ∀ now a f, t.label = .pull now a f → t.before.bootstrapDone = true →
      NothingShadowed "local" t.before :=
  mirror_faithful_iff "local" Db.empty overlapRun_trace overlapRun_bans overlapRun_succeeds

/-- The one row of the identity holds the second ban's id, and goes with it. -/
theorem overlap5_unbanned : overlap5.db.activeRows = [] ∧ banA ∈ overlap5.lapi.active := by decide

/-- LAPI still holds the first ban, the mirror none. -/
theorem mirror_loses_older_ban :
    ¬ ∀ (name : String) (db : Db) (ts : List (Transition World Event)) (w : World),
      Trace (Step name) (start db) ts w → (∀ t ∈ ts, ∀ d, t.label = .add d → d.type = "ban") →
      (∀ t ∈ ts, ∀ now a f, t.label = .pull now a f → f = none) →
      ∀ t ∈ ts, ∀ now a f, t.label = .pull now a f → Faithful name t.after := by
  intro h
  have hf := h "local" Db.empty overlapRun overlap5 overlapRun_trace overlapRun_bans overlapRun_succeeds
    ⟨overlap4,.pull 1 secondDeleted none,overlap5⟩ (by simp [overlapRun]) 1 secondDeleted none rfl
  obtain ⟨r,hr,_⟩ := (hf banA.identity).mpr ⟨banA,overlap5_unbanned.2,by decide,rfl⟩
  simp [overlap5_unbanned.1] at hr

end Protek.Mirror
