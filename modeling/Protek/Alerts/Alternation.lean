import Mathlib.Data.List.Nodup
import Protek.Alerts.Rules

/-! # Firing and resolved take turns

The stored flag of a rule is the flag that its notifications say, unless a silence takes
it down: then the end of the condition is never notified, or the rule fires twice.
-/
namespace Protek.Alerts
open Foundation Foundation.Clock

/-! ## Edges that take turns -/

def Edge.other : Edge → Edge
  | .firing => .resolved
  | .resolved => .firing

def Alternates : Edge → List Edge → Prop
  | _, [] => True
  | e, x :: l => x = e ∧ Alternates e.other l

/-- The edge whose turn it is after a list. -/
def nextEdge : Edge → List Edge → Edge
  | e, [] => e
  | _, x :: l => nextEdge x.other l

theorem nextEdge_append (e : Edge) (l m : List Edge) : nextEdge e (l ++ m) = nextEdge (nextEdge e l) m := by
  induction l generalizing e with
  | nil => rfl
  | cons x l ih => exact ih x.other

theorem alternates_append (e : Edge) (l m : List Edge) :
    Alternates e (l ++ m) ↔ Alternates e l ∧ Alternates (nextEdge e l) m := by
  induction l generalizing e with
  | nil => exact (and_iff_right trivial).symm
  | cons x l ih =>
    change (x = e ∧ Alternates e.other (l ++ m)) ↔ (x = e ∧ Alternates e.other l) ∧ Alternates (nextEdge x.other l) m
    rw [ih, and_assoc]
    constructor
    · rintro ⟨rfl,h⟩
      exact ⟨rfl,h⟩
    · rintro ⟨rfl,h⟩
      exact ⟨rfl,h⟩

/-- The flag that says whose turn it is. -/
def flagOf (e : Edge) : Bool := e = .resolved

theorem flagOf_injective : Function.Injective flagOf := by
  intro a b h
  cases a <;> cases b <;> first | rfl | cases h

/-! ## Runs -/

inductive AlertAction
  | tick (s : Snapshot) (clock : Readings)
  | addSilence (pattern untilAt reason actor : String) (now : Instant)
  | removeSilence (silenceId : ℕ)
  /-- Whatever else is written: not the states of the rules. -/
  | others

def AlertStep (db : AlertDb) (a : AlertAction) (db' : AlertDb) : Prop :=
  match a with
  | .tick s clock => db' = (Alerts.tick db s clock).db
  | .addSilence pattern untilAt reason actor now => db' = Alerts.addSilence db pattern untilAt reason actor now
  | .removeSilence silenceId => db' = Alerts.removeSilence db silenceId
  | .others => db'.states = db.states

abbrev AlertMove := Transition AlertDb AlertAction

def edgesOf (key : String) (sent : List Notification) : List Edge := (sent.filter (fun n => n.key = key)).map Notification.edge

/-- What one step notifies of a rule. -/
def edgesAt (key : String) (t : AlertMove) : List Edge :=
  match t.label with
  | .tick s clock => edgesOf key (tick t.before s clock).sent
  | _ => []

def edges (key : String) (ts : List AlertMove) : List Edge := ts.flatMap (edgesAt key)

/-- A tick at which the condition of the rule does not hold. -/
def Cleared (r : Rule) (t : AlertMove) : Prop := ∃ s clock, t.label = .tick s clock ∧ r.holds s = false

/-- A tick at which nothing silences the rule. -/
def Unsilenced (r : Rule) (t : AlertMove) : Prop :=
  ∃ s clock, t.label = .tick s clock ∧ isSilenced t.before r.key (clock.silenced r.key) = none

/-- Once its condition has cleared, a rule that fired is resolved by the next tick that nothing silences. -/
def ResolvedLater (r : Rule) (ts : List AlertMove) : Prop :=
  ∀ front t mid v back, ts = front ++ t :: (mid ++ v :: back) → .firing ∈ edgesAt r.key t →
    (∃ u ∈ mid ++ [v], Cleared r u) → Unsilenced r v → .resolved ∈ edges r.key (mid ++ [v])

/-- No tick finds the rule firing and silenced. -/
def Unheld (r : Rule) (t : AlertMove) : Prop :=
  ∀ s clock, t.label = .tick s clock → (loadState t.before r.key).firing = true →
    isSilenced t.before r.key (clock.silenced r.key) = none

/-! ## One rule in a tick -/

section
variable {db : AlertDb} {s : Snapshot} {clock : Readings} {r : Rule}

/-- The evaluation of a rule in a tick. -/
def evaluationIn (db : AlertDb) (s : Snapshot) (clock : Readings) (r : Rule) : Evaluation :=
  evaluate r s (loadState db r.key) (isSilenced db r.key (clock.silenced r.key)).isSome

/-- The turn of another rule leaves the state of a rule and its notifications alone. -/
theorem turn_of_other {q : Rule} {key : String} (h : q.key ≠ key) (k : Tick) :
    loadState (Tick.turn s clock k q).db key = loadState k.db key ∧ edgesOf key (Tick.turn s clock k q).sent = edgesOf key k.sent := by
  constructor
  · unfold Tick.turn saveState loadState
    dsimp only
    rw [Function.update_of_ne h.symm]
  · unfold Tick.turn edgesOf Evaluation.notification
    dsimp only
    rw [List.filter_append, List.map_append]
    cases (evaluate q s (loadState k.db q.key) (isSilenced k.db q.key (clock.silenced q.key)).isSome).edge with
    | none => exact List.append_nil _
    | some e =>
      rw [Option.map_some, Option.toList_some, List.filter_cons_of_neg (by simpa [notify] using h)]
      exact List.append_nil _

theorem own_turn (k : Tick) : (loadState (Tick.turn s clock k r).db r.key).firing = (evaluationIn k.db s clock r).firing ∧
    (loadState (Tick.turn s clock k r).db r.key).consecutive = (evaluationIn k.db s clock r).consecutive ∧
    edgesOf r.key (Tick.turn s clock k r).sent = edgesOf r.key k.sent ++ (evaluationIn k.db s clock r).edge.toList := by
  have hsaved : (Tick.turn s clock k r).db.states r.key = some
      ⟨(evaluationIn k.db s clock r).firing,r.level,(evaluationIn k.db s clock r).firingSince,isoformat (clock.saved r.key),
        String.ofList ((evaluationIn k.db s clock r).message.toList.take 300),
        if (evaluationIn k.db s clock r).edge.isSome then some (isoformat (clock.saved r.key))
          else (k.db.states r.key).bind AlertState.lastNotified,
        (evaluationIn k.db s clock r).consecutive⟩ := Function.update_self ..
  have hsent : (Tick.turn s clock k r).sent = k.sent ++ ((evaluationIn k.db s clock r).notification k.db r).toList := rfl
  unfold loadState edgesOf
  rw [hsaved, hsent, List.filter_append, List.map_append]
  refine ⟨rfl,rfl,congrArg (_ ++ ·) ?_⟩
  unfold Evaluation.notification
  cases (evaluationIn k.db s clock r).edge with
  | none => rfl
  | some e =>
    rw [Option.map_some, Option.toList_some, List.filter_cons_of_pos (by simp [notify])]
    rfl

/-- A rule has one turn in a tick. -/
theorem tick_rule (hr : r ∈ rules) (db : AlertDb) (s : Snapshot) (clock : Readings) :
    (loadState (tick db s clock).db r.key).firing = (evaluationIn db s clock r).firing ∧
      (loadState (tick db s clock).db r.key).consecutive = (evaluationIn db s clock r).consecutive ∧
      edgesOf r.key (tick db s clock).sent = (evaluationIn db s clock r).edge.toList := by
  have hother : ∀ k : Tick, ∀ q ∈ rules, q ≠ r → loadState (Tick.turn s clock k q).db r.key = loadState k.db r.key ∧
      edgesOf r.key (Tick.turn s clock k q).sent = edgesOf r.key k.sent :=
    fun k q hq hne => turn_of_other (fun heq => hne (List.inj_on_of_nodup_map keys_nodup hq hr heq)) k
  obtain ⟨k,hsilences,hbefore,hafter⟩ := @foldl_own _ _ _ (Tick.turn s clock) rules r hr (List.Nodup.of_map _ keys_nodup)
    (fun k : Tick => k.db.silences = db.silences) (fun _ _ _ h => h)
    (fun k : Tick => (loadState k.db r.key,edgesOf r.key k.sent))
    (fun k q hq hne => Prod.ext (hother k q hq hne).1 (hother k q hq hne).2) ⟨db,[],[]⟩ rfl
  obtain ⟨hload,hsent⟩ := Prod.mk.inj hbefore
  obtain ⟨hload',hsent'⟩ := Prod.mk.inj hafter
  have heval : evaluationIn k.db s clock r = evaluationIn db s clock r := by
    unfold evaluationIn isSilenced
    rw [hload, hsilences]
  obtain ⟨hfiring,hconsecutive,hedges⟩ := @own_turn s clock r k
  rw [heval] at hfiring hconsecutive hedges
  unfold tick
  rw [hload', hsent']
  refine ⟨hfiring,hconsecutive,?_⟩
  rw [hedges, hsent]
  exact List.nil_append _

end

/-! ## Runs without a held rule -/

section
variable {r : Rule} {init db : AlertDb} {ts : List AlertMove}

/-- What a step does to the state of a rule, next to what it notifies. -/
inductive RuleMove (r : Rule) (t : AlertMove) : Prop
  | kept (hfree : ∀ s clock, t.label ≠ .tick s clock) (hstate : loadState t.after r.key = loadState t.before r.key)
      (hedges : edgesAt r.key t = [])
  | ticked (s : Snapshot) (clock : Readings) (hlabel : t.label = .tick s clock)
      (hfiring : (loadState t.after r.key).firing = (evaluationIn t.before s clock r).firing)
      (hconsecutive : (loadState t.after r.key).consecutive = (evaluationIn t.before s clock r).consecutive)
      (hedges : edgesAt r.key t = (evaluationIn t.before s clock r).edge.toList)

theorem ruleMove_of_step (hr : r ∈ rules) {t : AlertMove} (hs : AlertStep t.before t.label t.after) : RuleMove r t := by
  obtain ⟨before,label,after⟩ := t
  cases label with
  | tick s clock =>
    obtain rfl : after = (tick before s clock).db := hs
    obtain ⟨hfiring,hconsecutive,hedges⟩ := tick_rule hr before s clock
    exact .ticked s clock rfl hfiring hconsecutive hedges
  | addSilence pattern untilAt reason actor now =>
    obtain rfl : after = addSilence before pattern untilAt reason actor now := hs
    exact .kept (by simp) rfl rfl
  | removeSilence silenceId =>
    obtain rfl : after = removeSilence before silenceId := hs
    exact .kept (by simp) rfl rfl
  | others =>
    have hstates : after.states = before.states := hs
    exact .kept (by simp) (by unfold loadState; rw [hstates]) rfl

/-- The flag is up exactly when a resolved notification is due. -/
structure Follows (r : Rule) (db : AlertDb) (sent : List Edge) : Prop where
  debounced : Debounced r (loadState db r.key)
  flag : (loadState db r.key).firing = flagOf (nextEdge .firing sent)
  alternates : Alternates .firing sent

/-- An edge is notified only when it is its turn. -/
theorem flag_of_edge {s : Snapshot} {prev : AlertState} {suppressed : Bool} {e : Edge}
    (h : (evaluate r s prev suppressed).edge = some e) : prev.firing = flagOf e := by
  cases e with
  | firing => exact (evaluate_edge_firing.mp h).2.1
  | resolved => exact (evaluate_edge_resolved.mp h).1

/-- An evaluation without a silence keeps the flag with the notifications. -/
theorem evaluate_takes_turn {s : Snapshot} {prev : AlertState} {suppressed : Bool} {sent : List Edge} (hd : 1 ≤ r.debounce)
    (hprev : Debounced r prev) (hs : prev.firing = true → suppressed = false) (hflag : prev.firing = flagOf (nextEdge .firing sent)) :
    (evaluate r s prev suppressed).firing = flagOf (nextEdge .firing (sent ++ (evaluate r s prev suppressed).edge.toList)) ∧
      Alternates (nextEdge .firing sent) (evaluate r s prev suppressed).edge.toList := by
  rw [evaluate_follows hd hprev hs, nextEdge_append]
  cases hedge : (evaluate r s prev suppressed).edge with
  | none => exact ⟨hflag,trivial⟩
  | some e =>
    have hturn : e = nextEdge .firing sent := flagOf_injective ((flag_of_edge hedge).symm.trans hflag)
    refine ⟨?_,hturn,trivial⟩
    cases e <;> rfl

theorem debounced_evaluate {s : Snapshot} {clock : Readings} {t : AlertMove}
    (hfiring : (loadState t.after r.key).firing = (evaluationIn t.before s clock r).firing)
    (hconsecutive : (loadState t.after r.key).consecutive = (evaluationIn t.before s clock r).consecutive) :
    Debounced r (loadState t.after r.key) := by
  intro hf
  rw [hfiring, evaluationIn, evaluate_firing, Bool.and_eq_true, decide_eq_true_eq] at hf
  rw [hconsecutive]
  exact hf.1

theorem Follows.step (hr : r ∈ rules) {t : AlertMove} {sent : List Edge} (h : Follows r t.before sent)
    (hs : AlertStep t.before t.label t.after) (hC : Unheld r t) : Follows r t.after (sent ++ edgesAt r.key t) := by
  cases ruleMove_of_step hr hs with
  | kept hfree hstate hedges =>
    rw [hedges, List.append_nil]
    exact ⟨hstate ▸ h.debounced,hstate ▸ h.flag,h.alternates⟩
  | ticked s clock hlabel hfiring hconsecutive hedges =>
    obtain ⟨hturn,halternates⟩ := @evaluate_takes_turn r s (loadState t.before r.key)
      (isSilenced t.before r.key (clock.silenced r.key)).isSome sent (debounce_pos hr) h.debounced
      (fun hf => by rw [hC s clock hlabel hf]; rfl) h.flag
    refine ⟨debounced_evaluate hfiring hconsecutive,?_,?_⟩
    · rw [hfiring, hedges]
      exact hturn
    · rw [hedges, alternates_append]
      exact ⟨h.alternates,halternates⟩

theorem follows_of_trace (hr : r ∈ rules) (h : Trace AlertStep init ts db) (h0 : init.states r.key = none)
    (hC : ∀ t ∈ ts, Unheld r t) : Follows r db (edges r.key ts) := by
  induction h with
  | nil =>
    have hload : (loadState init r.key).firing = false := by
      unfold loadState
      rw [h0]
      rfl
    exact ⟨fun hf => (by rw [hload] at hf; cases hf),hload,trivial⟩
  | @snoc ts db db' a h hs ih =>
    have hstep := (ih (fun t ht => hC t (List.mem_append_left _ ht))).step (t := ⟨db,a,db'⟩) hr hs (hC _ (by simp))
    unfold edges
    rw [List.flatMap_append, List.flatMap_singleton]
    exact hstep

/-- As long as nothing is resolved, the flag stays up and the condition holds at every tick. -/
theorem up_until_resolved (hr : r ∈ rules) (h : Trace AlertStep init ts db) (hC : ∀ t ∈ ts, Unheld r t)
    (hd : Debounced r (loadState init r.key)) (hup : (loadState init r.key).firing = true) (hno : .resolved ∉ edges r.key ts) :
    (Debounced r (loadState db r.key) ∧ (loadState db r.key).firing = true) ∧ ∀ t ∈ ts, ¬ Cleared r t := by
  induction h with
  | nil => exact ⟨⟨hd,hup⟩,fun t ht => absurd ht List.not_mem_nil⟩
  | @snoc ts db db' a h hs ih =>
    unfold edges at hno
    rw [List.flatMap_append, List.flatMap_singleton, List.mem_append, not_or] at hno
    obtain ⟨⟨hd',hup'⟩,hts⟩ := ih (fun t ht => hC t (List.mem_append_left _ ht)) hno.1
    have hheld := hC ⟨db,a,db'⟩ (by simp)
    have hlast : (Debounced r (loadState db' r.key) ∧ (loadState db' r.key).firing = true) ∧ ¬ Cleared r ⟨db,a,db'⟩ := by
      cases ruleMove_of_step (t := ⟨db,a,db'⟩) hr hs with
      | kept hfree hstate hedges =>
        have hstate' : loadState db' r.key = loadState db r.key := hstate
        rw [hstate']
        refine ⟨⟨hd',hup'⟩,?_⟩
        rintro ⟨s,clock,hlabel,-⟩
        exact hfree s clock hlabel
      | ticked s clock hlabel hfiring hconsecutive hedges =>
        have hnone : isSilenced db r.key (clock.silenced r.key) = none := hheld s clock hlabel hup'
        have hedge : (evaluationIn db s clock r).edge ≠ some .resolved := by
          intro hresolved
          exact hno.2 (hedges ▸ Option.mem_toList.mpr hresolved)
        have hfiring' : (loadState db' r.key).firing = true :=
          hfiring.trans (evaluate_stays_firing (debounce_pos hr) hd' (fun _ => by rw [hnone]; rfl) hup' hedge)
        refine ⟨⟨debounced_evaluate hfiring hconsecutive,hfiring'⟩,?_⟩
        rintro ⟨s',clock',hlabel',hclear⟩
        obtain ⟨rfl,-⟩ := AlertAction.tick.inj (hlabel.symm.trans hlabel')
        exact hedge (evaluate_edge_resolved.mpr ⟨hup',hclear,by rw [hnone]; rfl⟩)
    refine ⟨hlast.1,fun t ht => ?_⟩
    rcases List.mem_append.mp ht with ht | ht
    · exact hts t ht
    · rw [List.mem_singleton.mp ht]
      exact hlast.2

/-- While no tick finds the rule firing and silenced, its notifications take turns, and each firing is resolved. -/
theorem alerts_alternate (hr : r ∈ rules) (h : Trace AlertStep init ts db) (h0 : init.states r.key = none)
    (hC : ∀ t ∈ ts, Unheld r t) : Alternates .firing (edges r.key ts) ∧ ResolvedLater r ts := by
  refine ⟨(follows_of_trace hr h h0 hC).alternates,?_⟩
  rintro front t mid v back rfl hfiring ⟨u,hu,hclear⟩ -
  by_contra hno
  have hfront : Follows r t.after (edges r.key front ++ edgesAt r.key t) :=
    (follows_of_trace hr h.take h0 (fun x hx => hC x (by simp [hx]))).step hr (h.mem_step t (by simp)) (hC t (by simp))
  have hup : (loadState t.after r.key).firing = true := by
    cases ruleMove_of_step hr (h.mem_step t (by simp)) with
    | kept hfree hstate hedges =>
      rw [hedges] at hfiring
      exact absurd hfiring List.not_mem_nil
    | ticked s clock hlabel hf hconsecutive hedges =>
      rw [hedges, Option.mem_toList] at hfiring
      obtain ⟨hcount,-,hfree⟩ := evaluate_edge_firing.mp hfiring
      rw [hf, evaluationIn, evaluate_firing, Bool.and_eq_true]
      exact ⟨decide_eq_true hcount,by rw [hfree]; rfl⟩
  have hmid : ∃ w, Trace AlertStep t.after (mid ++ [v]) w := by
    have hrest := h.drop
    exact ⟨v.after,hrest.take.snoc (hrest.mem_step v (by simp))⟩
  obtain ⟨w,hw⟩ := hmid
  exact (up_until_resolved hr hw (fun x hx => hC x (by simp at hx ⊢; tauto)) hfront.debounced hup hno).2 u hu hclear

end

/-! ## Runs on fixed inputs -/

/-- The step of an action. -/
def AlertDb.next (db : AlertDb) : AlertAction → AlertDb
  | .tick s clock => (Alerts.tick db s clock).db
  | .addSilence pattern untilAt reason actor now => Alerts.addSilence db pattern untilAt reason actor now
  | .removeSilence silenceId => Alerts.removeSilence db silenceId
  | .others => db

def follow : AlertDb → List AlertAction → List AlertMove
  | _, [] => []
  | db, a :: rest => ⟨db,a,db.next a⟩ :: follow (db.next a) rest

theorem follow_trace (db : AlertDb) (actions : List AlertAction) : ∃ db', Trace AlertStep db (follow db actions) db' := by
  induction actions generalizing db with
  | nil => exact ⟨db,.nil⟩
  | cons a rest ih =>
    obtain ⟨db',h⟩ := ih (db.next a)
    have hs : AlertStep db a (db.next a) := by cases a <;> rfl
    exact ⟨db',(Trace.single hs).append h⟩

def noAlerts : AlertDb := ⟨fun _ => none,[],0,fun _ => none⟩

/-- The last poll was so many seconds ago, and nothing else is wrong. -/
def polledAgo (seconds : ℕ) : Snapshot := ⟨0,seconds * second,true,"",[],0,"up"⟩

def clockAt (hours : ℕ) : Readings := ⟨fun _ => hours * hour,fun _ => hours * hour⟩

/-- The rule `sync_stale_5m`. -/
def syncStale : Rule := ⟨"sync_stale_5m","Reconcile cycle stale ≥ 5 min",lvlCrit,ruleSyncStale,1⟩

theorem alerts_alternate_example :
    edges "sync_stale_5m" (follow noAlerts [.tick (polledAgo 400) (clockAt 1),.tick (polledAgo 2) (clockAt 2)]) = [.firing,.resolved] ∧
    Alternates .firing
      (edges syncStale.key (follow noAlerts [.tick (polledAgo 400) (clockAt 1),.tick (polledAgo 2) (clockAt 2)])) := by
  obtain ⟨db,h⟩ := follow_trace noAlerts [.tick (polledAgo 400) (clockAt 1),.tick (polledAgo 2) (clockAt 2)]
  refine ⟨by decide +kernel,(alerts_alternate (r := syncStale) ?_ h rfl ?_).1⟩
  · exact List.mem_cons_of_mem _ List.mem_cons_self
  · intro t ht s clock _ _
    simp only [follow, List.mem_cons, List.not_mem_nil, or_false] at ht
    rcases ht with rfl | rfl <;> rfl

/-- A silence of an hour between two ticks at which the rule matches. -/
def silencedHour (s s' : Snapshot) : List AlertAction :=
  [.tick (polledAgo 400) (clockAt 1),.addSilence "sync_*" (isoformat (3 * hour)) "" "" (1 * hour),.tick s (clockAt 2),
    .tick s' (clockAt 4)]

/-- The rule fires again after the silence, and a condition that cleared under it is never resolved. -/
theorem fired_twice :
    edges syncStale.key (follow noAlerts (silencedHour (polledAgo 400) (polledAgo 400))) = [.firing,.firing] ∧
    edges syncStale.key (follow noAlerts (silencedHour (polledAgo 2) (polledAgo 2))) = [.firing] ∧
    ¬ ∀ r ∈ rules, ∀ ts db, Trace AlertStep noAlerts ts db → Alternates .firing (edges r.key ts) ∧ ResolvedLater r ts := by
  have htwice : edges syncStale.key (follow noAlerts (silencedHour (polledAgo 400) (polledAgo 400))) = [.firing,.firing] := by
    decide +kernel
  refine ⟨htwice,by decide +kernel,fun hall => ?_⟩
  obtain ⟨db,h⟩ := follow_trace noAlerts (silencedHour (polledAgo 400) (polledAgo 400))
  have halternates := (hall syncStale (List.mem_cons_of_mem _ List.mem_cons_self) _ _ h).1
  rw [htwice] at halternates
  cases halternates.2.1

end Protek.Alerts
