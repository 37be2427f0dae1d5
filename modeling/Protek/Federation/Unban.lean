import Protek.Federation.FirstPull
import Protek.Policy.Writers

/-! # How long an unban lasts

The bulk action `delete` tombstones the active rows of a value and tells LAPI nothing.
LAPI stays the source of truth: whatever pull brings a decision on the value next, the
first of a restarted poller among them, makes its row active again.
-/
namespace Protek.Federation.Unban
open Foundation Foundation.PyText Foundation.Clock Protek.Store Protek.Mirror Protek.Policy

inductive Event
  | poller (e : Federation.Event)
  | restart
  | bulkDelete (ips : Option String) (now : Instant)

/-- A new poller process remembers no source. -/
def restart (w : World) : World :=
  { w with
    bootstrapDone := fun _ => false
    failStreak := fun _ => 0
    todo := [] }

inductive Step (U : CaseMap) (T : CharTable) : World → Event → World → Prop
  | poller {w w' : World} {e : Federation.Event} (h : Federation.Step U T w e w') : Step U T w (.poller e) w'
  | restart {w : World} : Step U T w .restart (restart w)
  | bulkDelete {w : World} {ips : Option String} {now : Instant} :
      Step U T w (.bulkDelete ips now) { w with db := Policy.bulkDelete w.db ips now }

def Unbans (v : String) (t : Transition World Event) : Prop := ∃ ips now, t.label = .bulkDelete ips now ∧ v ∈ splitIps ips

/-- Some LAPI holds a decision on the value with an id that it did not hold before. -/
def HoldsNew (before : World) (v : String) (w : World) : Prop :=
  ∃ p, ∃ d ∈ (w.lapis p).active, d.value = v ∧ d.id ∉ (before.lapis p).active.map LapiDecision.id

/-- An unbanned value is not desired until LAPI holds a new decision on it. -/
def Durable (U : CaseMap) (T : CharTable) (ts : List (Transition World Event)) : Prop :=
  ∀ pre del post v, ts = pre ++ del :: post → Unbans v del →
    ∀ front t back, post = front ++ t :: back → (∀ u ∈ front, ¬ HoldsNew del.before v u.after) →
      ∀ now, t.label = .poller (.cycle now) → ∀ d ∈ (desiredFromDb U T t.before.db now).1, d.value ≠ v

/-- The step is a pull that brings a decision on the value: one that LAPI holds if it is a
full pull, one that came since the cursor if it is an incremental one. -/
def Brings (v : String) (t : Transition World Event) : Prop :=
  ∃ src now a f d, t.label = .poller (.pull src now a f) ∧ d ∈ (t.before.lapis src.endpoint).active ∧ d.value = v ∧
    ((t.before.bootstrapDone src.name = false ∧ d.listed = true) ∨
      (t.before.bootstrapDone src.name = true ∧ d.id ∈ (t.before.lapis src.endpoint).pending ∧ d.inScope = true))

def NoneActive (v : String) (db : Db) : Prop := ∀ r ∈ db.activeRows, r.value ≠ v

section
variable {U : CaseMap} {T : CharTable} {db : Db} {v : String}

/-- A row that is active after a tombstoning was active before it, and not meant. -/
theorem active_tombstone {p : DecisionRow → Bool} {now : String} {r : DecisionRow}
    (hr : r ∈ (db.tombstone p now).activeRows) : r ∈ db.activeRows ∧ p r = false := by
  obtain ⟨hmem,hact⟩ := Db.mem_activeRows.mp hr
  obtain ⟨q,hq,hqr⟩ := Db.mem_updateDecisions.mp hmem
  cases hp : p q with
  | true =>
    simp only [hp, if_true] at hqr
    rw [← hqr] at hact
    cases hact
  | false =>
    simp only [hp, Bool.false_eq_true, if_false] at hqr
    subst hqr
    exact ⟨Db.mem_activeRows.mpr ⟨hq,hact⟩,hp⟩

theorem noneActive_bulkDelete {ips : Option String} (hv : v ∈ splitIps ips) (now : Instant) :
    NoneActive v (bulkDelete db ips now) := by
  rintro r hr rfl
  obtain ⟨hact,hp⟩ := active_tombstone hr
  have hactive : r.active = true := (List.mem_filter.mp hact).2
  simp [hv, hactive] at hp

theorem noneActive_exec {st : Stmt} (h : NoneActive v db)
    (hst : ∀ name d now, st = .upsertDecision name d now → d.value ≠ v) : NoneActive v (exec db st) := by
  intro r hr
  cases st with
  | upsertDecision name d now =>
    have hd := hst name d now rfl
    obtain ⟨hmem,hact⟩ := Db.mem_activeRows.mp hr
    rcases Db.mem_upsertDecision.mp hmem with ⟨hold,_⟩ | rfl
    · exact h r (Db.mem_activeRows.mpr ⟨hold,hact⟩)
    · cases hfind : db.decisions.find (freshRow name d now).key with
      | none => exact hd
      | some old =>
        have hkey : old.key = (freshRow name d now).key := (KeyedTable.find_eq_some.mp hfind).2
        have hvalue : old.value = d.value := congrArg (fun k : String × Identity => k.2.1) hkey
        exact fun he => hd (hvalue.symm.trans he)
  | tombstoneIdentity name k now => exact h r (active_tombstone hr).1
  | tombstoneLapiId name i now => exact h r (active_tombstone hr).1
  | seeIp ip name now => exact h r hr

theorem noneActive_execAll {stmts : List Stmt} (h : NoneActive v db)
    (hst : ∀ name d now, .upsertDecision name d now ∈ stmts → d.value ≠ v) : NoneActive v (execAll db stmts) := by
  refine execAll_invariant (I := NoneActive v) h (fun st hmem db hdb => noneActive_exec hdb ?_)
  rintro name d now rfl
  exact hst name d now hmem

theorem upsert_not_mem_seeIps {name src now now' : String} {d d' : LapiDecision} :
    .upsertDecision name d now ∉ seeIpStmt src now' d' := by
  unfold seeIpStmt
  split <;> simp

theorem mem_of_upsert_bootstrap {name src now now' : String} {d : LapiDecision} {decisions : List LapiDecision}
    (h : .upsertDecision name d now ∈ bootstrapStmts src decisions now' db) : d ∈ decisions := by
  simp only [bootstrapStmts, upsertStmts, List.mem_append, List.mem_map, List.mem_flatMap] at h
  rcases h with (⟨e,he,heq⟩ | ⟨k,_,heq⟩) | ⟨e,_,hsee⟩
  · cases heq
    exact he
  · cases heq
  · exact absurd hsee upsert_not_mem_seeIps

theorem mem_of_upsert_stream {name src now now' : String} {d : LapiDecision} {new deleted : List LapiDecision}
    (h : .upsertDecision name d now ∈ streamStmts src new deleted now') : d ∈ new := by
  simp only [streamStmts, List.mem_append, List.mem_flatMap, List.mem_cons, List.mem_map] at h
  rcases h with ⟨e,he,heq | hsee⟩ | ⟨e,_,heq⟩
  · cases heq
    exact he
  · exact absurd hsee upsert_not_mem_seeIps
  · cases heq

/-- Only a pull that brings a decision on the value makes one of its rows active. -/
theorem NoneActive.step {t : Transition World Event} (hs : Step U T t.before t.label t.after) (hno : ¬ Brings v t)
    (h : NoneActive v t.before.db) : NoneActive v t.after.db := by
  obtain ⟨w,e,w'⟩ := t
  dsimp only at hs h ⊢
  cases hs with
  | restart => exact h
  | bulkDelete => exact fun r hr => h r (active_tombstone hr).1
  | poller hs =>
    cases hs with
    | lapiAdd _ => exact h
    | lapiRemove => exact h
    | admin => exact h
    | tick _ => exact h
    | @cycle now =>
      intro r hr
      refine h r ?_
      unfold Db.activeRows at hr ⊢
      rwa [decisions_desiredFromDb] at hr
    | @pull src now a f u s _ hpull _ =>
      change NoneActive v u.db
      cases hpull with
      | bootstrap hflag hip hrange _ =>
        refine noneActive_execAll h (fun name d at_ hd hv => hno ?_)
        obtain ⟨hactive,hlisted⟩ := (Lapi.mem_listing hip hrange d).mp (mem_of_upsert_bootstrap (mem_of_mem_executed hd))
        exact ⟨src,now,a,f,d,rfl,hactive,hv,Or.inl ⟨hflag,hlisted⟩⟩
      | stream hflag hserve =>
        refine noneActive_execAll h (fun name d at_ hd hv => hno ?_)
        obtain ⟨hactive,hpending,hscope⟩ := (hserve.mem_new d).mp (mem_of_upsert_stream (mem_of_mem_executed hd))
        exact ⟨src,now,a,f,d,rfl,hactive,hv,Or.inr ⟨hflag,hpending,hscope⟩⟩

end

/-- An unbanned value is not desired until a pull brings a decision on it. -/
def DurableUntilPulled (U : CaseMap) (T : CharTable) (ts : List (Transition World Event)) : Prop :=
  ∀ pre del post v, ts = pre ++ del :: post → Unbans v del →
    ∀ front t back, post = front ++ t :: back → (∀ u ∈ front, ¬ Brings v u) →
      ∀ now, t.label = .poller (.cycle now) → ∀ d ∈ (desiredFromDb U T t.before.db now).1, d.value ≠ v

/-- In every run an unban lasts until a pull brings a decision on the value, new or old. -/
theorem unban_lasts_until_pulled (U : CaseMap) (T : CharTable) {w s : World} {ts : List (Transition World Event)}
    (h : Trace (Step U T) w ts s) : DurableUntilPulled U T ts := by
  rintro pre del post v rfl hdel front t back rfl hno now _ d hd hv
  have hdelStep := h.mem_step del (List.mem_append_right _ List.mem_cons_self)
  have hgone : NoneActive v del.after.db := by
    obtain ⟨before,label,after⟩ := del
    obtain ⟨ips,at_,rfl,hmem⟩ := hdel
    dsimp only at hdelStep ⊢
    cases hdelStep
    exact noneActive_bulkDelete hmem at_
  have hfront : Trace (Step U T) del.after front t.before := h.drop.take
  have hstill := (hfront.invariant (I := fun w => NoneActive v w.db) (C := fun u => ¬ Brings v u) hgone
    (fun u hs hu hi => hi.step hs hu) hno).1
  obtain ⟨⟨r,hr,hrv⟩,_⟩ := mem_desiredFromDb.mp ⟨d,hd,hv⟩
  exact hstill r hr hrv

/-! ## A restart after an unban -/

theorem poller_trace {U : CaseMap} {T : CharTable} {w s : World} {ts : List (Transition World Federation.Event)}
    (h : Trace (Federation.Step U T) w ts s) :
    Trace (Step U T) w (ts.map (fun t => ⟨t.before,Event.poller t.label,t.after⟩)) s := by
  induction h with
  | nil => exact .nil
  | snoc h hs ih =>
    rw [List.map_append]
    exact ih.snoc (.poller hs)

def edgeUnbanned : World := { edgePulled with db := bulkDelete edgePulled.db (some "198.51.100.7") 1 }

def edgeRestarted : World := restart edgeUnbanned

def edgeReticked : World := edgeRestarted.tick 2 false

def edgeKnown : SourceRow := { edgeA with lastPullAt := some "1970-01-01T00:00:00+00:00", lastPullN := 1 }

def edgeRepulled : World :=
  edgeReticked.afterPull edgeKnown none
    ⟨execAll edgeReticked.db (bootstrapOf "edge" 2 edgeAnswer edgeReticked.db),edgeReticked.lapis endpointA,true⟩
    ((edgeReticked.sources.recordPull 1 1 "" 0 2).setBackoff 1 none)

def unbanStep : Transition World Event := ⟨edgePulled,.bulkDelete (some "198.51.100.7") 1,edgeUnbanned⟩

def restartSteps : List (Transition World Event) :=
  [⟨edgeUnbanned,.restart,edgeRestarted⟩,⟨edgeRestarted,.poller (.tick 2 false),edgeReticked⟩,
    ⟨edgeReticked,.poller (.pull edgeKnown 2 edgeAnswer none),edgeRepulled⟩]

def cycleAfterRestart : Transition World Event :=
  ⟨edgeRepulled,.poller (.cycle 3),{ edgeRepulled with db := (desiredFromDb .ascii .ascii edgeRepulled.db 3).2 }⟩

/-- LAPI still holds the decision that the operator deleted. -/
def unbanRun : List (Transition World Event) :=
  edgeRun.map (fun t => ⟨t.before,Event.poller t.label,t.after⟩) ++ unbanStep :: (restartSteps ++ [cycleAfterRestart])

theorem unbanRun_trace : Trace (Step .ascii .ascii) bare unbanRun cycleAfterRestart.after := by
  have hlapi : edgeReticked.lapis endpointA = (Feed.empty : Lapi).add edgeBan (by unfold Feed.Unused; decide) := by
    change edgePulled.lapis endpointA = _
    rw [edgePulled, World.afterPull]
    exact (Function.update_self (f := edgeListed.lapis) endpointA _).trans
      (Function.update_self (f := edgeAdded.lapis) endpointA _)
  have hpull : Mirror.Step edgeKnown.name (edgeReticked.view edgeKnown) (.pull 2 edgeAnswer none)
      ⟨execAll edgeReticked.db (bootstrapOf "edge" 2 edgeAnswer edgeReticked.db),edgeReticked.lapis endpointA,true⟩ := by
    refine .bootstrap (f := none) rfl ?_ ?_ (Or.inl rfl)
    · change Lapi.ServesDecisions (edgeReticked.lapis endpointA) "Ip" "ban" edgeAnswer.ip
      rw [hlapi]
      exact List.Perm.refl _
    · change Lapi.ServesDecisions (edgeReticked.lapis endpointA) "Range" "ban" edgeAnswer.range
      rw [hlapi]
      exact List.Perm.refl _
  have hcons : unbanRun = (((((edgeRun.map (fun t => ⟨t.before,Event.poller t.label,t.after⟩)) ++ [unbanStep]) ++
      [⟨edgeUnbanned,.restart,edgeRestarted⟩]) ++ [⟨edgeRestarted,.poller (.tick 2 false),edgeReticked⟩]) ++
      [⟨edgeReticked,.poller (.pull edgeKnown 2 edgeAnswer none),edgeRepulled⟩]) ++ [cycleAfterRestart] := by
    simp [unbanRun, restartSteps]
  rw [hcons]
  exact (((((poller_trace (edgeRun_trace _ _)).snoc .bulkDelete).snoc .restart).snoc (.poller (.tick rfl))).snoc
    (.poller (.pull (by decide) hpull (.success 0)))).snoc (.poller .cycle)

theorem unban_lasts_until_pulled_example : DurableUntilPulled .ascii .ascii unbanRun :=
  unban_lasts_until_pulled .ascii .ascii unbanRun_trace

/-- The first pull after the restart brings the deleted ban back under its old id. -/
theorem unbanned_comes_back :
    ¬ ∀ (U : CaseMap) (T : CharTable) (w s : World) (ts : List (Transition World Event)), Trace (Step U T) w ts s →
      Durable U T ts := by
  intro h
  have hlist : (desiredFromDb .ascii .ascii edgeRepulled.db 3).1 = [⟨"198.51.100.7","Ip","ssh-bf","","edge",1⟩] := by decide
  have hsame : ∀ u ∈ restartSteps, ∀ p, (u.after.lapis p).active = (edgePulled.lapis p).active := by
    intro u hu p
    simp only [restartSteps, List.mem_cons, List.not_mem_nil, or_false] at hu
    rcases hu with rfl | rfl | rfl
    · rfl
    · rfl
    · by_cases hp : p = endpointA
      · subst hp
        exact congrArg Feed.active (Function.update_self (f := edgeReticked.lapis) endpointA _)
      · exact congrArg Feed.active (Function.update_of_ne (f := edgeReticked.lapis) hp _)
  have hold : ∀ u ∈ restartSteps, ¬ HoldsNew edgePulled "198.51.100.7" u.after := by
    rintro u hu ⟨p,d,hd,_,hnew⟩
    rw [hsame u hu p] at hd
    exact hnew (List.mem_map_of_mem hd)
  have hdurable := h .ascii .ascii _ _ _ unbanRun_trace _ unbanStep _ "198.51.100.7" rfl
    ⟨some "198.51.100.7",1,rfl,by decide⟩ restartSteps cycleAfterRestart [] rfl hold 3 rfl
  refine hdurable ⟨"198.51.100.7","Ip","ssh-bf","","edge",1⟩ ?_ rfl
  change _ ∈ (desiredFromDb .ascii .ascii edgeRepulled.db 3).1
  rw [hlist]
  exact List.mem_singleton_self _

end Protek.Federation.Unban
