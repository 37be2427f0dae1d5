import Protek.Mirror.Agreement

/-! # Failed pulls

LAPI's cursor moves when it serves the stream, each statement commits by itself,
and the flag that asks for a full pull is never taken back. A failed full pull is
repeated. A failed incremental one is not: what it had not applied is gone unless
it would have changed no active row anyway.
-/
namespace Protek.Mirror
open Foundation Foundation.Clock Protek.Store

/-- Where LAPI has served the stream and the pull then fails, the statements that
were not executed would have changed no active row of the source. -/
def LosesNothing (name : String) (t : Transition World Event) : Prop :=
  ∀ now a f, t.label = .pull now a (some f) → t.before.bootstrapDone = true → f ≠ .beforeResponse →
    activeView (execAll t.before.db (executed (some f) (streamOf name now a))) name =
      activeView (execAll t.before.db (streamOf name now a)) name

/-- What holds between pulls, failed or not. -/
structure Synced (name : String) (w : World) : Prop where
  bans : ∀ d ∈ w.lapi.active, d.type = "ban"
  level : Level name w

section
variable {name : String} {w w' : World} {now : Instant} {a : Answer}

theorem Step.active_of_pull {f : Option Fault} (h : Step name w (.pull now a f) w') : w'.lapi.active = w.lapi.active := by
  cases h with
  | bootstrap _ _ _ hl =>
    rcases hl with hl | hl
    · rw [hl]
    · rw [hl]
      rfl
  | stream _ _ =>
    change (if f = some .beforeResponse then w.lapi else w.lapi.advance).active = _
    split <;> rfl

/-- Where the flag is unset after a failed full pull, the next pull is a full one again. -/
theorem Level.of_failed_bootstrap {f : Fault} (h : Step name w (.pull now a (some f)) w')
    (hflag : w.bootstrapDone = false) (hd : IdentitiesDistinct w'.lapi) : Level name w' := by
  cases h with
  | bootstrap hfalse hip hrange hl =>
    intro hdone
    have hrec : f = .recording := by simpa [bootstrapReturns] using hdone
    subst hrec
    -- recording comes last: the table is as after a success
    have hs : Step name w (.pull now a none) ⟨execAll w.db (bootstrapOf name now a w.db),_,true⟩ :=
      .bootstrap (f := none) hfalse hip hrange hl
    exact (hs.exact_of_bootstrap hflag hd).mirrors rfl
  | stream htrue _ =>
    rw [htrue] at hflag
    cases hflag

theorem Level.of_failed_stream {f : Fault} (h : Step name w (.pull now a (some f)) w')
    (hflag : w.bootstrapDone = true) (hi : Level name w) (hd : IdentitiesDistinct w'.lapi)
    (hban : ∀ d ∈ w.lapi.active, d.type = "ban")
    (hc : f ≠ .beforeResponse → activeView (execAll w.db (executed (some f) (streamOf name now a))) name =
      activeView (execAll w.db (streamOf name now a)) name) : Level name w' := by
  cases h with
  | bootstrap hfalse _ _ _ =>
    rw [hfalse] at hflag
    cases hflag
  | stream htrue hs =>
    by_cases hf : f = .beforeResponse
    · subst hf
      exact fun _ => hi htrue
    · have hsome : ¬ some f = some Fault.beforeResponse := fun he => hf (Option.some.inj he)
      have hfull : Step name w (.pull now a none) ⟨execAll w.db (streamOf name now a),w.lapi.advance,true⟩ :=
        .stream (f := none) htrue hs
      rw [if_neg hsome] at hd ⊢
      have hex := hfull.exact_of_stream hflag hi hd (fun d hdn => hban d ((hs.mem_new d).mp hdn).1)
      intro _
      change decisionShape.Mirrors _ Listed (activeView (execAll w.db (executed (some f) (streamOf name now a))) name)
      rw [hc hf]
      exact hex.mirrors rfl

theorem Synced.step {e : Event} (hs : Step name w e w') (hi : Synced name w) (hd : IdentitiesDistinct w'.lapi)
    (hban : ∀ d, e = .add d → d.type = "ban") (hc : LosesNothing name ⟨w,e,w'⟩) : Synced name w' := by
  cases e with
  | add d =>
    have hlevel := hi.level.step hs hd (by simp) (by simp)
    cases hs with
    | add _ =>
      refine ⟨fun e he => ?_,hlevel⟩
      rcases List.mem_append.mp he with he | he
      · exact hi.bans e he
      · rw [List.mem_singleton.mp he]
        exact hban d rfl
  | remove i =>
    have hlevel := hi.level.step hs hd (by simp) (by simp)
    cases hs
    exact ⟨fun d hd => hi.bans d (Feed.mem_retire.mp hd).1,hlevel⟩
  | pull now a f =>
    refine ⟨fun d hda => hi.bans d (hs.active_of_pull ▸ hda),?_⟩
    cases f with
    | none =>
      refine hi.level.step hs hd (by simp) (fun now' a' f' he hflag d hdn => ?_)
      cases he
      cases hs with
      | bootstrap hfalse _ _ _ =>
        rw [hfalse] at hflag
        cases hflag
      | stream _ hserve => exact hi.bans d ((hserve.mem_new d).mp hdn).1
    | some f =>
      cases hflag : w.bootstrapDone with
      | false => exact Level.of_failed_bootstrap hs hflag hd
      | true => exact Level.of_failed_stream hs hflag hi.level hd hi.bans (hc now a f rfl hflag)

theorem Step.faithful_of_synced (h : Step name w (.pull now a none) w') (hi : Synced name w)
    (hd : IdentitiesDistinct w'.lapi) : Faithful name w' := by
  rw [faithful_iff]
  cases hflag : w.bootstrapDone with
  | false => exact (h.exact_of_bootstrap hflag hd).faithful
  | true =>
    refine (h.exact_of_stream hflag hi.level hd (fun d hdn => ?_)).faithful
    cases h with
    | bootstrap hfalse _ _ _ =>
      rw [hfalse] at hflag
      cases hflag
    | stream _ hs => exact hi.bans d ((hs.mem_new d).mp hdn).1

end

/-- Along a run with failing pulls, with distinct identities and bans only, every pull
that succeeds is faithful if no failed incremental pull cut off a change. -/
theorem faithful_after_failures (name : String) (db : Db) {ts : List (Transition World Event)} {w : World}
    (h : Trace (Step name) (start db) ts w) (hdistinct : ∀ t ∈ ts, IdentitiesDistinct t.after.lapi)
    (hban : ∀ t ∈ ts, ∀ d, t.label = .add d → d.type = "ban") (hkept : ∀ t ∈ ts, LosesNothing name t) :
    ∀ t ∈ ts, ∀ now a, t.label = .pull now a none → Faithful name t.after := by
  have hinv := h.invariant (I := Synced name)
    (C := fun t => IdentitiesDistinct t.after.lapi ∧ (∀ d, t.label = .add d → d.type = "ban") ∧ LosesNothing name t)
    ⟨by simp [start, Feed.empty],by simp [Level, start]⟩
    (fun t hs hc hi => hi.step hs hc.1 hc.2.1 hc.2.2) (fun t ht => ⟨hdistinct t ht,hban t ht,hkept t ht⟩)
  rintro ⟨before,label,after⟩ ht now a hl
  obtain rfl : label = .pull now a none := hl
  exact (h.mem_step _ ht).faithful_of_synced (hinv.2 _ ht).1 (hdistinct _ ht)

/-! ## A failure that loses nothing, and one that loses a ban -/

def banNew : Answer := { new := [banA] }

def lost1 : World := ⟨execAll Db.empty (bootstrapOf "local" 0 {} Db.empty),Feed.empty,true⟩

def lost2 : World := { lost1 with lapi := lost1.lapi.add banA (by unfold Feed.Unused; decide) }

theorem lost1_step : Step "local" (start Db.empty) (.pull 0 {} none) lost1 :=
  .bootstrap (f := none) rfl (List.Perm.refl _) (List.Perm.refl _) (Or.inl rfl)

theorem lost2_step : Step "local" lost1 (.add banA) lost2 := .add _

def recorded3 : World := ⟨execAll lost2.db (streamOf "local" 1 banNew),lost2.lapi.advance,true⟩

def recorded4 : World := ⟨execAll recorded3.db (streamOf "local" 2 {}),recorded3.lapi.advance,true⟩

/-- The delta is applied and only its recording fails. -/
def recordedRun : List (Transition World Event) :=
  [⟨start Db.empty,.pull 0 {} none,lost1⟩,⟨lost1,.add banA,lost2⟩,
    ⟨lost2,.pull 1 banNew (some .recording),recorded3⟩,⟨recorded3,.pull 2 {} none,recorded4⟩]

theorem recordedRun_trace : Trace (Step "local") (start Db.empty) recordedRun recorded4 := by
  have h3 : Step "local" lost2 (.pull 1 banNew (some .recording)) recorded3 :=
    .stream (f := some .recording) rfl (by unfold Lapi.ServesStream; decide)
  have h4 : Step "local" recorded3 (.pull 2 {} none) recorded4 :=
    .stream (f := none) rfl (by unfold Lapi.ServesStream; decide)
  exact (((Trace.nil.snoc lost1_step).snoc lost2_step).snoc h3).snoc h4

theorem recordedRun_distinct : ∀ t ∈ recordedRun, IdentitiesDistinct t.after.lapi := by
  unfold IdentitiesDistinct
  decide

theorem recordedRun_losesNothing : ∀ t ∈ recordedRun, LosesNothing "local" t := by
  intro t ht now a f hl _ _
  rcases t with ⟨w,e,w'⟩
  simp only [recordedRun, List.mem_cons, Transition.mk.injEq, List.not_mem_nil, or_false] at ht
  rcases ht with ⟨_,rfl,_⟩ | ⟨_,rfl,_⟩ | ⟨_,rfl,_⟩ | ⟨_,rfl,_⟩
  · cases hl
  · cases hl
  · cases hl
    rfl
  · cases hl

theorem faithful_after_recording_fails :
    (∀ t ∈ recordedRun, LosesNothing "local" t) ∧
    ∀ t ∈ recordedRun, ∀ now a, t.label = .pull now a none → Faithful "local" t.after :=
  ⟨recordedRun_losesNothing,
    faithful_after_failures "local" Db.empty recordedRun_trace recordedRun_distinct (by simp [recordedRun, banA])
      recordedRun_losesNothing⟩

def lost3 : World := ⟨execAll lost2.db [],lost2.lapi.advance,true⟩

def lost4 : World := ⟨execAll lost3.db (streamOf "local" 2 {}),lost3.lapi.advance,true⟩

/-- The first statement of the delta fails, and the next pull succeeds. -/
def lostRun : List (Transition World Event) :=
  [⟨start Db.empty,.pull 0 {} none,lost1⟩,⟨lost1,.add banA,lost2⟩,
    ⟨lost2,.pull 1 banNew (some (.applying 0)),lost3⟩,⟨lost3,.pull 2 {} none,lost4⟩]

theorem lostRun_trace : Trace (Step "local") (start Db.empty) lostRun lost4 := by
  have h3 : Step "local" lost2 (.pull 1 banNew (some (.applying 0))) lost3 :=
    .stream (f := some (.applying 0)) rfl (by unfold Lapi.ServesStream; decide)
  have h4 : Step "local" lost3 (.pull 2 {} none) lost4 :=
    .stream (f := none) rfl (by unfold Lapi.ServesStream; decide)
  exact (((Trace.nil.snoc lost1_step).snoc lost2_step).snoc h3).snoc h4

theorem lostRun_distinct : ∀ t ∈ lostRun, IdentitiesDistinct t.after.lapi := by
  unfold IdentitiesDistinct
  decide

theorem lost4_unbanned : lost4.db.activeRows = [] ∧ banA ∈ lost4.lapi.active := by decide

/-- The ban was in the delta that failed, and no later delta brings it again. -/
theorem failed_pull_loses_ban :
    ¬ ∀ (name : String) (db : Db) (ts : List (Transition World Event)) (w : World),
      Trace (Step name) (start db) ts w → (∀ t ∈ ts, IdentitiesDistinct t.after.lapi) →
      (∀ t ∈ ts, ∀ d, t.label = .add d → d.type = "ban") →
      ∀ t ∈ ts, ∀ now a, t.label = .pull now a none → Faithful name t.after := by
  intro h
  have hf := h "local" Db.empty lostRun lost4 lostRun_trace lostRun_distinct (by simp [lostRun, banA])
    ⟨lost3,.pull 2 {} none,lost4⟩ (by simp [lostRun]) 2 {} rfl
  obtain ⟨r,hr,_⟩ := (hf banA.identity).mpr ⟨banA,lost4_unbanned.2,by decide,rfl⟩
  simp [lost4_unbanned.1] at hr

end Protek.Mirror
