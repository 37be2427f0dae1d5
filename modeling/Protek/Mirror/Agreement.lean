import Protek.Mirror.Fidelity

/-! # The incremental pull against the full pull

The full pull asks LAPI for bans only, the stream asks for no type. With distinct
identities the two agree for as long as the stream brings nothing but bans.
-/
namespace Protek.Mirror
open Foundation Foundation.Clock Protek.Store

/-- The active rows of a source, as (value, scope, scenario, type). -/
def activeSet (db : Db) (name : String) : Set (Identity × String) :=
  {p | ∃ r ∈ db.activeRows, r.originSource = name ∧ (r.identity,r.type) = p}

/-- A full pull at this moment on an empty table would leave the same active rows. -/
def AgreesWithFullPull (name : String) (w : World) : Prop :=
  ∀ now a, Lapi.ServesDecisions w.lapi "Ip" "ban" a.ip → Lapi.ServesDecisions w.lapi "Range" "ban" a.range →
    activeSet w.db name = activeSet (execAll Db.empty (bootstrapOf name now a Db.empty)) name

def IdentitiesDistinct (lapi : Lapi) : Prop :=
  ∀ d ∈ lapi.active, ∀ e ∈ lapi.active, d.identity = e.identity → d = e

theorem IdentitiesDistinct.keysDistinct {lapi : Lapi} (h : IdentitiesDistinct lapi) :
    decisionShape.KeysDistinct lapi InScope := by
  intro d hd e he hds hes hkey
  apply h d hd e he
  rw [← recordedKey_of_inScope hds, ← recordedKey_of_inScope hes]
  exact hkey

theorem KeysDistinct.listed {lapi : Lapi} (h : decisionShape.KeysDistinct lapi InScope) :
    decisionShape.KeysDistinct lapi Listed :=
  fun d hd e he hld hle => h d hd e he (inScope_of_listed hld) (inScope_of_listed hle)

theorem mem_activeSet {db : Db} {name : String} {k : Identity} {t : String} :
    (k,t) ∈ activeSet db name ↔ ∃ i, activeView db name k = some (i,t) := by
  simp only [activeView_eq_some]
  constructor
  · rintro ⟨r,hr,hsrc,hrow⟩
    obtain ⟨rfl,rfl⟩ := Prod.mk.inj hrow
    exact ⟨r.lapiId,r,hr,hsrc,rfl,rfl⟩
  · rintro ⟨i,r,hr,hsrc,rfl,hrow⟩
    obtain ⟨_,rfl⟩ := Prod.mk.inj hrow
    exact ⟨r,hr,hsrc,rfl⟩

theorem view_fullPull {lapi : Lapi} {a : Answer} (hip : Lapi.ServesDecisions lapi "Ip" "ban" a.ip)
    (hrange : Lapi.ServesDecisions lapi "Range" "ban" a.range) (name : String) (now : Instant) (db : Db) :
    decisionShape.Current lapi Listed (activeView (execAll db (bootstrapOf name now a db)) name) := by
  rw [view_bootstrap]
  exact Shape.current_load (Lapi.mem_listing hip hrange)

section
variable {name : String} {w w' : World} {now : Instant} {a : Answer}

theorem agrees_of_exact (hd : IdentitiesDistinct w.lapi)
    (hex : decisionShape.Exact w.lapi Listed (activeView w.db name)) : AgreesWithFullPull name w := by
  intro now a hip hrange
  have hfull := (view_fullPull hip hrange name now Db.empty).exact (KeysDistinct.listed hd.keysDistinct)
  ext ⟨k,t⟩
  rw [mem_activeSet, mem_activeSet]
  exact exists_congr (fun i => (hex k (i,t)).trans (hfull k (i,t)).symm)

theorem faithful_of_agrees (h : AgreesWithFullPull name w) :
    decisionShape.Faithful w.lapi Listed (activeView w.db name) := by
  let a : Answer := { ip := w.lapi.active.filter (fun d => d.scope = "Ip" ∧ d.type = "ban"),
                      range := w.lapi.active.filter (fun d => d.scope = "Range" ∧ d.type = "ban") }
  have hip : Lapi.ServesDecisions w.lapi "Ip" "ban" a.ip := List.Perm.refl _
  have hrange : Lapi.ServesDecisions w.lapi "Range" "ban" a.range := List.Perm.refl _
  have hset := h 0 a hip hrange
  intro k
  rw [← (view_fullPull hip hrange name 0 Db.empty).faithful k]
  have hsome : ∀ db : Db, (activeView db name k).isSome = true ↔ ∃ t, (k,t) ∈ activeSet db name := by
    intro db
    simp only [mem_activeSet, Option.isSome_iff_exists, Prod.exists]
    exact exists_comm
  rw [hsome, hsome, hset]

/-- What holds between pulls while only bans are streamed. -/
def Level (name : String) (w : World) : Prop :=
  w.bootstrapDone = true → decisionShape.Mirrors w.lapi Listed (activeView w.db name)

theorem Step.exact_of_bootstrap (h : Step name w (.pull now a none) w') (hflag : w.bootstrapDone = false)
    (hd : IdentitiesDistinct w'.lapi) : decisionShape.Exact w'.lapi Listed (activeView w'.db name) :=
  (h.current_of_bootstrap hflag).1.exact (KeysDistinct.listed hd.keysDistinct)

theorem Step.exact_of_stream (h : Step name w (.pull now a none) w') (hflag : w.bootstrapDone = true)
    (hi : Level name w) (hd : IdentitiesDistinct w'.lapi) (hban : ∀ d ∈ a.new, d.type = "ban") :
    decisionShape.Exact w'.lapi Listed (activeView w'.db name) := by
  cases h with
  | bootstrap hfalse _ _ _ =>
    rw [hfalse] at hflag
    cases hflag
  | stream _ hs =>
    have hview : activeView (execAll w.db (executed none (streamOf name now a))) name = _ :=
      view_stream name now a w.db
    simp only [reduceCtorEq, if_false] at hd ⊢
    have hex := (hi hflag).exact_replay (KeysDistinct.listed hd.keysDistinct) (delta_listed hs hban)
    rw [hview]
    exact hex

/-- An incremental pull agrees with a full one exactly when it delivers only bans. -/
theorem Step.agrees_iff_of_stream (h : Step name w (.pull now a none) w') (hflag : w.bootstrapDone = true)
    (hi : Level name w) (hd : IdentitiesDistinct w'.lapi) :
    AgreesWithFullPull name w' ↔ ∀ d ∈ a.new, d.type = "ban" := by
  refine ⟨fun hagree => ?_,fun hban => agrees_of_exact hd (h.exact_of_stream hflag hi hd hban)⟩
  cases h with
  | bootstrap hfalse _ _ _ =>
    rw [hfalse] at hflag
    cases hflag
  | stream _ hs =>
    have hview : activeView (execAll w.db (executed none (streamOf name now a))) name = _ :=
      view_stream name now a w.db
    have hf := faithful_of_agrees hagree
    simp only [hview, reduceCtorEq, if_false] at hf hd
    intro d hdn
    have hl : Listed d := Shape.want_of_faithful_replay (f := w.lapi) (fun _ => inScope_of_listed)
      hd.keysDistinct (delta_inScope hs) hf d hdn
    simp only [Listed, LapiDecision.listed, decide_eq_true_eq] at hl
    exact hl.2

theorem Level.step {e : Event} (hs : Step name w e w') (hi : Level name w) (hd : IdentitiesDistinct w'.lapi)
    (hok : ∀ now a f, e = .pull now a f → f = none)
    (hc : ∀ now a f, e = .pull now a f → w.bootstrapDone = true → ∀ d ∈ a.new, d.type = "ban") : Level name w' := by
  cases e with
  | add d =>
    cases hs with
    | add hunused => exact fun hflag => (hi hflag).add hunused
  | remove i =>
    cases hs
    exact fun hflag => (hi hflag).retire i
  | pull now a f =>
    cases hok now a f rfl
    intro _
    cases hflag : w.bootstrapDone with
    | false => exact (hs.exact_of_bootstrap hflag hd).mirrors rfl
    | true => exact (hs.exact_of_stream hflag hi hd (hc now a none rfl hflag)).mirrors rfl

end

/-- Along a run without failures whose active identities stay distinct, every pull
leaves what a full pull on an empty table would leave exactly when every decision that
an incremental pull delivers as new is a ban. -/
theorem stream_agrees_iff (name : String) (db : Db) {ts : List (Transition World Event)} {w : World}
    (h : Trace (Step name) (start db) ts w) (hdistinct : ∀ t ∈ ts, IdentitiesDistinct t.after.lapi)
    (hok : ∀ t ∈ ts, ∀ now a f, t.label = .pull now a f → f = none) :
    (∀ t ∈ ts, ∀ now a f, t.label = .pull now a f → AgreesWithFullPull name t.after) ↔
    ∀ t ∈ ts, ∀ now a f, t.label = .pull now a f → t.before.bootstrapDone = true → ∀ d ∈ a.new, d.type = "ban" := by
  refine pulls_iff (I := Level name) (A := fun t => IdentitiesDistinct t.after.lapi)
    (G := AgreesWithFullPull name) (C := fun _ a => ∀ d ∈ a.new, d.type = "ban") h (by simp [Level, start]) hdistinct hok ?_ ?_ ?_
  · intro t hs hd hok hc hi
    exact hi.step hs hd hok hc
  · intro v v' now a hs hd hflag
    exact agrees_of_exact hd (hs.exact_of_bootstrap hflag hd)
  · intro v v' now a hs hd hflag hi
    exact hs.agrees_iff_of_stream hflag hi hd

/-! ## A remediation other than a ban -/

def captcha : LapiDecision :=
  { id := 5, value := "198.51.100.9", scope := "Ip", type := "captcha", scenario := "http-probing" }

def captchaNew : Answer := { new := [captcha] }

def captcha1 : World := ⟨execAll Db.empty (bootstrapOf "local" 0 {} Db.empty),Feed.empty,true⟩

def captcha2 : World := { captcha1 with lapi := captcha1.lapi.add captcha (by unfold Feed.Unused; decide) }

def captcha3 : World := ⟨execAll captcha2.db (streamOf "local" 1 captchaNew),captcha2.lapi.advance,true⟩

/-- LAPI is empty at the full pull and then asks for a captcha. -/
def captchaRun : List (Transition World Event) :=
  [⟨start Db.empty,.pull 0 {} none,captcha1⟩,⟨captcha1,.add captcha,captcha2⟩,
    ⟨captcha2,.pull 1 captchaNew none,captcha3⟩]

theorem captchaRun_trace : Trace (Step "local") (start Db.empty) captchaRun captcha3 := by
  have h1 : Step "local" (start Db.empty) (.pull 0 {} none) captcha1 :=
    .bootstrap (f := none) rfl (List.Perm.refl _) (List.Perm.refl _) (Or.inl rfl)
  have h2 : Step "local" captcha1 (.add captcha) captcha2 := .add _
  have h3 : Step "local" captcha2 (.pull 1 captchaNew none) captcha3 :=
    .stream (f := none) rfl (by unfold Lapi.ServesStream; decide)
  exact ((Trace.nil.snoc h1).snoc h2).snoc h3

theorem captchaRun_distinct : ∀ t ∈ captchaRun, IdentitiesDistinct t.after.lapi := by
  unfold IdentitiesDistinct
  decide

theorem captchaRun_succeeds : ∀ t ∈ captchaRun, ∀ now a f, t.label = .pull now a f → f = none := by
  simp [captchaRun]

theorem stream_agrees_captcha :
    (∀ t ∈ captchaRun, ∀ now a f, t.label = .pull now a f → AgreesWithFullPull "local" t.after) ↔
    ∀ t ∈ captchaRun, ∀ now a f, t.label = .pull now a f → t.before.bootstrapDone = true →
      ∀ d ∈ a.new, d.type = "ban" :=
  stream_agrees_iff "local" Db.empty captchaRun_trace captchaRun_distinct captchaRun_succeeds

/-- The stream bans an address that a full pull leaves alone. -/
theorem stream_records_captcha :
    ¬ ∀ (name : String) (db : Db) (ts : List (Transition World Event)) (w : World),
      Trace (Step name) (start db) ts w → (∀ t ∈ ts, IdentitiesDistinct t.after.lapi) →
      (∀ t ∈ ts, ∀ now a f, t.label = .pull now a f → f = none) →
      ∀ t ∈ ts, ∀ now a f, t.label = .pull now a f → AgreesWithFullPull name t.after := by
  intro h
  have hagree := h "local" Db.empty captchaRun captcha3 captchaRun_trace captchaRun_distinct captchaRun_succeeds
    ⟨captcha2,.pull 1 captchaNew none,captcha3⟩ (by simp [captchaRun]) 1 captchaNew none rfl 2 {}
    (by unfold Lapi.ServesDecisions; decide) (by unfold Lapi.ServesDecisions; decide)
  have hrow : (captcha.identity,"captcha") ∈ activeSet captcha3.db "local" :=
    mem_activeSet.mpr ⟨5,by decide⟩
  rw [hagree] at hrow
  obtain ⟨r,hr,_⟩ := hrow
  have hnone : (execAll Db.empty (bootstrapOf "local" 2 {} Db.empty)).activeRows = [] := by decide
  rw [hnone] at hr
  cases hr

end Protek.Mirror
