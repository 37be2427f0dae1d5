import Protek.Federation.Ticks

/-! # The first pull of a source

A source that has never been pulled starts with a full pull as long as no source is
added under a name that the poller has pulled before: the flag is kept by name, and
only `local` has code that drops it.
-/
namespace Protek.Federation
open Foundation Foundation.PyText Foundation.Clock Protek.Store Protek.Mirror Protek.Policy

/-- The first pull of a row is a full one, and it leaves exactly what LAPI lists. -/
def StartsWithBootstrap (t : Transition World Event) : Prop :=
  ∀ src now a f, t.label = .pull src now a f → src.lastPullAt = none →
    t.before.bootstrapDone src.name = false ∧ Faithful src.name (t.after.view src)

/-- An `add` that succeeds takes a name that the poller has no flag for and no pull outstanding. -/
def AddsNewName (t : Transition World Event) : Prop :=
  ∀ name url apiKey confidence now, t.label = .admin (.add name url apiKey confidence now) → t.before.Free name →
    t.before.bootstrapDone name = false ∧ t.before.Settled name

def PullsSucceed (t : Transition World Event) : Prop := ∀ src now a f, t.label = .pull src now a f → f = none

/-- No flag is set for a source that has not been pulled, in the table or in the tick's list. -/
structure Unflagged (w : World) : Prop where
  rows : ∀ r ∈ w.sources.rows, r.lastPullAt = none → w.bootstrapDone r.name = false
  listed : ∀ src ∈ w.todo, src.lastPullAt = none → w.bootstrapDone src.name = false
  same : ∀ src ∈ w.todo, ∀ r ∈ w.sources.rows, r.name = src.name → r.id = src.id
  distinct : (w.todo.map SourceRow.name).Nodup

theorem World.Fresh.unflagged {w : World} (h : w.Fresh) : Unflagged w where
  rows r _ _ := h.1 r.name
  listed src _ _ := h.1 src.name
  same src hsrc := by
    rw [h.2] at hsrc
    cases hsrc
  distinct := by simp [h.2]

section
variable {U : CaseMap} {T : CharTable} {w w' : World}

theorem Unflagged.admin (hi : Unflagged w) (op : AdminOp)
    (hadd : ∀ name url apiKey confidence now, op = .add name url apiKey confidence now → w.Free name →
      w.bootstrapDone name = false ∧ w.Settled name) : Unflagged { w with sources := w.sources.perform op } where
  rows r hr hnone := by
    rcases Sources.mem_perform hr with ⟨q,hq,_,hname,hpull⟩ | ⟨name,url,apiKey,confidence,now,hop,hfree,rfl⟩
    · rw [← hname]
      exact hi.rows q hq (hpull hnone)
    · exact (hadd r.name url apiKey confidence now hop hfree).1
  listed := hi.listed
  same src hsrc r hr hname := by
    rcases Sources.mem_perform hr with ⟨q,hq,hid,hqname,_⟩ | ⟨name,url,apiKey,confidence,now,hop,hfree,rfl⟩
    · rw [← hid]
      exact hi.same src hsrc q hq (hqname.trans hname)
    · exact absurd hname.symm ((hadd r.name url apiKey confidence now hop hfree).2 src hsrc)
  distinct := hi.distinct

theorem Unflagged.tick (hi : Unflagged w) (now : Instant) (connectionChanged : Bool) :
    Unflagged (w.tick now connectionChanged) := by
  have hflag : ∀ name, w.bootstrapDone name = false → (w.tick now connectionChanged).bootstrapDone name = false := by
    intro name hname
    cases connectionChanged with
    | false => exact hname
    | true =>
      by_cases hl : name = "local"
      · simp [World.tick, hl]
      · simp [World.tick, hl, hname]
  exact {
    rows := fun r hr hnone => hflag _ (hi.rows r hr hnone)
    listed := fun src hsrc hnone => hflag _ (hi.rows src (Sources.mem_active hsrc) hnone)
    same := fun src hsrc r hr hname => congrArg SourceRow.id (Sources.eq_of_name hr (Sources.mem_active hsrc) hname)
    distinct := w.sources.active_names_nodup now }

theorem Unflagged.pull {src : SourceRow} {now : Instant} {v : Mirror.World} {s : Sources} {count : ℕ}
    (hi : Unflagged w) (hsrc : src ∈ w.todo)
    (hrec : Recorded w.sources src.id count now (w.failStreak src.name) none s) :
    Unflagged (w.afterPull src none v s) := by
  have hother : ∀ name, name ≠ src.name → (w.afterPull src none v s).bootstrapDone name = w.bootstrapDone name :=
    fun name hne => Function.update_of_ne hne _ _
  have hlisted : ∀ q ∈ w.todo.erase src, q ∈ w.todo ∧ q.name ≠ src.name := by
    intro q hq
    have hmem := List.mem_of_mem_erase hq
    refine ⟨hmem,fun hname => ?_⟩
    rw [List.inj_on_of_nodup_map hi.distinct hmem hsrc hname] at hq
    exact (hi.distinct.of_map SourceRow.name).not_mem_erase hq
  refine ⟨?_,?_,?_,?_⟩
  · intro r hr hnone
    obtain ⟨q,hq,hid,hname,hpull⟩ := hrec.descends r hr
    have hne : r.name ≠ src.name := by
      intro he
      -- the pull has been recorded on the only row of its name
      exact hrec.pulled r hr (hid.symm.trans (hi.same src hsrc q hq (hname.trans he))) hnone
    rw [hother _ hne, ← hname]
    exact hi.rows q hq (hpull hnone)
  · intro q hq hnone
    rw [hother _ (hlisted q hq).2]
    exact hi.listed q (hlisted q hq).1 hnone
  · intro p hp r hr hname
    obtain ⟨q,hq,hid,hqname,_⟩ := hrec.descends r hr
    rw [← hid]
    exact hi.same p (hlisted p hp).1 q hq (hqname.trans hname)
  · exact (List.erase_sublist.map SourceRow.name).nodup hi.distinct

theorem Unflagged.step {t : Transition World Event} (hs : Step U T t.before t.label t.after) (hi : Unflagged t.before)
    (hadd : AddsNewName t) (hok : PullsSucceed t) : Unflagged t.after := by
  obtain ⟨w,e,w'⟩ := t
  change Step U T w e w' at hs
  cases hs with
  | lapiAdd h => exact ⟨hi.rows,hi.listed,hi.same,hi.distinct⟩
  | lapiRemove => exact ⟨hi.rows,hi.listed,hi.same,hi.distinct⟩
  | @admin op =>
    exact hi.admin op (fun name url apiKey confidence now hop => hadd name url apiKey confidence now (congrArg Event.admin hop))
  | tick h => exact hi.tick _ _
  | @pull src now a f v s hsrc hpull hrec =>
    obtain rfl : f = none := hok src now a f rfl
    exact hi.pull hsrc hrec
  | cycle => exact ⟨hi.rows,hi.listed,hi.same,hi.distinct⟩

theorem Unflagged.startsWithBootstrap {t : Transition World Event} (hs : Step U T t.before t.label t.after)
    (hi : Unflagged t.before) (hok : PullsSucceed t) : StartsWithBootstrap t := by
  obtain ⟨w,e,w'⟩ := t
  intro src now a f hl hnone
  obtain rfl : e = .pull src now a f := hl
  obtain rfl : f = none := hok src now a f rfl
  change Step U T w (.pull src now a none) w' at hs
  cases hs with
  | @pull _ _ _ _ v s hsrc hpull hrec =>
    have hflag : w.bootstrapDone src.name = false := hi.listed src hsrc hnone
    refine ⟨hflag,?_⟩
    have hview : (w.afterPull src none v s).view src = v := by
      simp [World.view, World.afterPull]
    rw [hview, faithful_iff]
    exact (hpull.current_of_bootstrap hflag).1.faithful

end

/-- In a poller process every source that is added under a new name starts with a full pull. -/
theorem first_pull_bootstraps (U : CaseMap) (T : CharTable) {w s : World} {ts : List (Transition World Event)}
    (h : Trace (Step U T) w ts s) (hfresh : w.Fresh) (hok : ∀ t ∈ ts, PullsSucceed t) (hadd : ∀ t ∈ ts, AddsNewName t) :
    ∀ t ∈ ts, StartsWithBootstrap t := by
  intro t ht
  have hinv := h.invariant (I := Unflagged) (C := fun t => AddsNewName t ∧ PullsSucceed t) hfresh.unflagged
    (fun t hs hc hi => hi.step hs hc.1 hc.2) (fun t ht => ⟨hadd t ht,hok t ht⟩)
  exact (hinv.2 t ht).1.startsWithBootstrap (h.mem_step t ht) (hok t ht)

/-! ## A source that is removed and added again -/

def bare : World := ⟨Db.empty,Sources.empty,fun _ => Feed.empty,fun _ => false,fun _ => 0,[]⟩

def endpointA : String × String := ("http://10.0.0.2:8080","key-a")

def endpointB : String × String := ("http://10.0.0.3:8080","key-b")

def edgeBan : LapiDecision := { id := 1, value := "198.51.100.7", scope := "Ip", type := "ban", scenario := "ssh-bf" }

def addEdge (p : String × String) : AdminOp := .add "edge" p.1 p.2 1 0

def edgeA : SourceRow := Sources.empty.newRow "edge" endpointA.1 endpointA.2 1 0

def edgeAdded : World := { bare with sources := bare.sources.perform (addEdge endpointA) }

def edgeBanned : World :=
  { edgeAdded with
    lapis := Function.update edgeAdded.lapis endpointA ((edgeAdded.lapis endpointA).add edgeBan (by unfold Feed.Unused; decide)) }

def edgeListed : World := edgeBanned.tick 0 false

def edgeAnswer : Answer := { ip := [edgeBan] }

def edgePulled : World :=
  edgeListed.afterPull edgeA none
    ⟨execAll edgeListed.db (bootstrapOf "edge" 0 edgeAnswer edgeListed.db),edgeListed.lapis endpointA,true⟩
    ((edgeListed.sources.recordPull 1 1 "" 0 0).setBackoff 1 none)

def edgeRun : List (Transition World Event) :=
  [⟨bare,.admin (addEdge endpointA),edgeAdded⟩,⟨edgeAdded,.lapiAdd endpointA edgeBan,edgeBanned⟩,
    ⟨edgeBanned,.tick 0 false,edgeListed⟩,⟨edgeListed,.pull edgeA 0 edgeAnswer none,edgePulled⟩]

theorem edgeRun_trace (U : CaseMap) (T : CharTable) : Trace (Step U T) bare edgeRun edgePulled := by
  have hlapi : edgeListed.lapis endpointA = (Feed.empty : Lapi).add edgeBan (by unfold Feed.Unused; decide) :=
    Function.update_self (f := edgeAdded.lapis) endpointA _
  have hpull : Mirror.Step edgeA.name (edgeListed.view edgeA) (.pull 0 edgeAnswer none)
      ⟨execAll edgeListed.db (bootstrapOf "edge" 0 edgeAnswer edgeListed.db),edgeListed.lapis endpointA,true⟩ := by
    refine .bootstrap (f := none) rfl ?_ ?_ (Or.inl rfl)
    · change Lapi.ServesDecisions (edgeListed.lapis endpointA) "Ip" "ban" edgeAnswer.ip
      rw [hlapi]
      exact List.Perm.refl _
    · change Lapi.ServesDecisions (edgeListed.lapis endpointA) "Range" "ban" edgeAnswer.range
      rw [hlapi]
      exact List.Perm.refl _
  exact (((Trace.single .admin).snoc (.lapiAdd _)).snoc (.tick rfl)).snoc (.pull (by decide) hpull (.success 0))

theorem edgeRun_fresh : bare.Fresh := ⟨fun _ => rfl,rfl⟩

theorem edgeRun_succeeds : ∀ t ∈ edgeRun, PullsSucceed t := by
  intro t ht src now a f hl
  simp only [edgeRun, List.mem_cons, List.not_mem_nil, or_false] at ht
  rcases ht with rfl | rfl | rfl | rfl <;> cases hl
  rfl

theorem edgeRun_new : ∀ t ∈ edgeRun, AddsNewName t := by
  intro t ht name url apiKey confidence now hl _
  simp only [edgeRun, List.mem_cons, List.not_mem_nil, or_false] at ht
  rcases ht with rfl | rfl | rfl | rfl <;> cases hl
  exact ⟨rfl,fun src hsrc => by cases hsrc⟩

theorem first_pull_bootstraps_edge : (∀ t ∈ edgeRun, AddsNewName t) ∧ ∀ t ∈ edgeRun, StartsWithBootstrap t :=
  ⟨edgeRun_new,first_pull_bootstraps .ascii .ascii (edgeRun_trace _ _) edgeRun_fresh edgeRun_succeeds edgeRun_new⟩

def edgeDeleted : World := { edgePulled with sources := edgePulled.sources.perform (.delete 1) }

def edgeReadded : World := { edgeDeleted with sources := edgeDeleted.sources.perform (addEdge endpointB) }

def edgeB : SourceRow := edgeDeleted.sources.newRow "edge" endpointB.1 endpointB.2 1 0

def edgeRelisted : World := edgeReadded.tick 1 false

def edgeStreamed : World :=
  edgeRelisted.afterPull edgeB none
    ⟨execAll edgeRelisted.db (streamOf "edge" 1 {}),(edgeRelisted.lapis endpointB).advance,true⟩
    ((edgeRelisted.sources.recordPull 2 0 "" 0 1).setBackoff 2 none)

def secondPull : Transition World Event := ⟨edgeRelisted,.pull edgeB 1 {} none,edgeStreamed⟩

/-- The second LAPI is empty, and the first one's ban stays. -/
def readdRun : List (Transition World Event) :=
  edgeRun ++ [⟨edgePulled,.admin (.delete 1),edgeDeleted⟩] ++ [⟨edgeDeleted,.admin (addEdge endpointB),edgeReadded⟩] ++
    [⟨edgeReadded,.tick 1 false,edgeRelisted⟩] ++ [secondPull]

theorem readdRun_trace (U : CaseMap) (T : CharTable) : Trace (Step U T) bare readdRun edgeStreamed := by
  have hlapi : edgeRelisted.lapis endpointB = Feed.empty := by
    have hne : endpointB ≠ endpointA := by decide
    simp [edgeRelisted, edgeReadded, edgeDeleted, edgePulled, World.tick, World.afterPull, edgeListed, edgeBanned,
      edgeAdded, bare, hne, show edgeA.endpoint = endpointA from rfl]
  have hpull : Mirror.Step edgeB.name (edgeRelisted.view edgeB) (.pull 1 {} none)
      ⟨execAll edgeRelisted.db (streamOf "edge" 1 {}),(edgeRelisted.lapis endpointB).advance,true⟩ := by
    refine .stream (f := none) rfl ?_
    change Lapi.ServesStream (edgeRelisted.lapis endpointB) [] []
    rw [hlapi]
    exact ⟨List.Perm.refl _,List.Perm.refl _⟩
  exact ((((edgeRun_trace U T).snoc .admin).snoc .admin).snoc (.tick (by decide))).snoc (.pull (by decide) hpull (.success 0))

theorem readdRun_succeeds : ∀ t ∈ readdRun, PullsSucceed t := by
  intro t ht src now a f hl
  simp only [readdRun, List.mem_append, List.mem_singleton] at ht
  rcases ht with (((ht | rfl) | rfl) | rfl) | rfl
  · exact edgeRun_succeeds t ht src now a f hl
  · cases hl
  · cases hl
  · cases hl
  · cases hl
    rfl

/-- The first pull of the new row is incremental and keeps what the old LAPI had listed. -/
theorem readded_source_streams :
    ¬ ∀ (U : CaseMap) (T : CharTable) (w s : World) (ts : List (Transition World Event)), Trace (Step U T) w ts s →
      w.Fresh → (∀ t ∈ ts, PullsSucceed t) → ∀ t ∈ ts, StartsWithBootstrap t := by
  intro h
  have hsecond : secondPull ∈ readdRun := List.mem_append_right _ (List.mem_singleton_self _)
  have hfull := h .ascii .ascii _ _ _ (readdRun_trace _ _) edgeRun_fresh readdRun_succeeds secondPull hsecond
    edgeB 1 {} none rfl rfl
  have hrow : ∃ r ∈ edgeStreamed.db.activeRows, r.originSource = "edge" ∧ r.identity = edgeBan.identity := by decide
  obtain ⟨d,hd,_⟩ := (hfull.2 edgeBan.identity).mp hrow
  have hnone : (secondPull.after.view edgeB).lapi.active = [] := by decide
  rw [hnone] at hd
  cases hd

end Protek.Federation
