import Protek.Alerts.Alternation

/-! # Evaluations side by side

The poller and the page of the alert rules evaluate the rules alike: each loads the state
of a rule, notifies, and saves the state in a transaction of its own. So a page view
advances the count that a debounce waits for, and two evaluations may notify one change.
-/
namespace Protek.Alerts
open Foundation Foundation.Clock

/-- How far a caller has got with the rule. -/
inductive RuleCall
  | idle
  | loaded (s : Snapshot) (prev : AlertState)
  | notified (e : Evaluation)

structure Shared (ι : Type*) where
  db : AlertDb
  calls : ι → RuleCall

inductive CallAction (ι : Type*)
  /-- The predicate is evaluated and the state is loaded. -/
  | load (i : ι) (s : Snapshot)
  /-- The silences are looked up, and the notification goes out. -/
  | send (i : ι) (now : Instant)
  | save (i : ι) (now : Instant)
  /-- Whatever else is written, the states of other rules among it. -/
  | others

variable {ι : Type*} [DecidableEq ι]

def Shared.put (s : Shared ι) (i : ι) (c : RuleCall) : Shared ι := { s with calls := Function.update s.calls i c }

/-- What a caller makes of the state that it has loaded. -/
def Shared.evaluation (s : Shared ι) (r : Rule) (snap : Snapshot) (prev : AlertState) (now : Instant) : Evaluation :=
  evaluate r snap prev (isSilenced s.db r.key now).isSome

inductive CallStep (r : Rule) : Shared ι → CallAction ι → Shared ι → Prop
  | load {s : Shared ι} {i : ι} {snap : Snapshot} (h : s.calls i = .idle) :
      CallStep r s (.load i snap) (s.put i (.loaded snap (loadState s.db r.key)))
  | send {s : Shared ι} {i : ι} {snap : Snapshot} {prev : AlertState} {now : Instant} (h : s.calls i = .loaded snap prev) :
      CallStep r s (.send i now) (s.put i (.notified (s.evaluation r snap prev now)))
  | save {s : Shared ι} {i : ι} {e : Evaluation} {now : Instant} (h : s.calls i = .notified e) :
      CallStep r s (.save i now) { s.put i .idle with db := saveState s.db r e now }
  | others {s s' : Shared ι} (hcalls : s'.calls = s.calls) (hstate : s'.db.states r.key = s.db.states r.key) :
      CallStep r s .others s'

abbrev CallMove (ι : Type*) := Transition (Shared ι) (CallAction ι)

/-- What one step notifies of the rule. -/
def callEdges (r : Rule) (t : CallMove ι) : List Edge :=
  match t.label with
  | .send i now =>
    match t.before.calls i with
    | .loaded snap prev => (t.before.evaluation r snap prev now).edge.toList
    | _ => []
  | _ => []

def sentEdges (r : Rule) (ts : List (CallMove ι)) : List Edge := ts.flatMap (callEdges r)

/-- Whether the predicate held at each of the poller's cycles, oldest first. -/
def cycles (r : Rule) (poller : ι) (ts : List (CallMove ι)) : List Bool :=
  ts.filterMap (fun t => match t.label with
    | .load i snap => if i = poller then some (r.holds snap) else none
    | _ => none)

/-- The predicate held at each of the last `n` cycles. -/
def HeldLast (n : ℕ) (l : List Bool) : Prop := List.replicate n true <:+ l

/-- The callers take turns, no evaluation finds the rule firing and silenced, and where another caller than the
poller sees the predicate hold, it has held at enough cycles. -/
structure Undisturbed (r : Rule) (poller : ι) (front : List (CallMove ι)) (t : CallMove ι) : Prop where
  alone : ∀ i snap, t.label = .load i snap → ∀ j, t.before.calls j = .idle
  unheld : ∀ i now snap prev, t.label = .send i now → t.before.calls i = .loaded snap prev → prev.firing = true →
    isSilenced t.before.db r.key now = none
  debounced : ∀ i snap, t.label = .load i snap → i ≠ poller → r.holds snap = true → HeldLast r.debounce (cycles r poller front)

/-! ## Cycles in a row -/

/-- At how many of the last cycles in a row the predicate held. -/
def heldFor (l : List Bool) : ℕ := (l.reverse.takeWhile id).length

theorem heldFor_true (l : List Bool) : heldFor (l ++ [true]) = heldFor l + 1 := by simp [heldFor]

theorem replicate_prefix_iff {n : ℕ} {l : List Bool} : List.replicate n true <+: l ↔ n ≤ (l.takeWhile id).length := by
  induction l generalizing n with
  | nil => cases n <;> simp [List.replicate_succ]
  | cons b l ih =>
    cases n with
    | zero => simp
    | succ n =>
      rw [List.replicate_succ, List.cons_prefix_cons, ih]
      cases b <;> simp

theorem heldLast_iff {n : ℕ} {l : List Bool} : HeldLast n l ↔ n ≤ heldFor l := by
  unfold HeldLast heldFor
  rw [← List.reverse_prefix, List.reverse_replicate, replicate_prefix_iff]

/-! ## One evaluation after the other -/

section
variable {r : Rule} {poller : ι} {s s' : Shared ι} {sent : List Edge} {held : ℕ}

/-- The flag says what is due, and it counts no more matches than there were cycles, unless these are enough. -/
structure Sound (r : Rule) (sent : List Edge) (held : ℕ) (firing : Bool) (consecutive : ℕ) : Prop where
  debounced : firing = true → r.debounce ≤ consecutive
  flag : firing = flagOf (nextEdge .firing sent)
  counted : consecutive ≤ held ∨ r.debounce ≤ held

/-- At most one caller is between its load and its save, and it has loaded what is there. -/
inductive Orderly (r : Rule) (sent : List Edge) (held : ℕ) (s : Shared ι) : Prop
  | free (hidle : ∀ i, s.calls i = .idle)
      (hsound : Sound r sent held (loadState s.db r.key).firing (loadState s.db r.key).consecutive)
  | loaded (i : ι) (snap : Snapshot) (hcall : s.calls i = .loaded snap (loadState s.db r.key))
      (hothers : ∀ j, j ≠ i → s.calls j = .idle) (hdebounced : Debounced r (loadState s.db r.key))
      (hflag : (loadState s.db r.key).firing = flagOf (nextEdge .firing sent))
      (hcounted : r.holds snap = true → (loadState s.db r.key).consecutive + 1 ≤ held ∨ r.debounce ≤ held)
  | notified (i : ι) (e : Evaluation) (hcall : s.calls i = .notified e) (hothers : ∀ j, j ≠ i → s.calls j = .idle)
      (hsound : Sound r sent held e.firing e.consecutive)

omit [DecidableEq ι] in
theorem Orderly.free_of_idle (h : Orderly r sent held s) (hidle : ∀ i, s.calls i = .idle) :
    Sound r sent held (loadState s.db r.key).firing (loadState s.db r.key).consecutive := by
  cases h with
  | free _ hsound => exact hsound
  | loaded i snap hcall => cases (hidle i).symm.trans hcall
  | notified i e hcall => cases (hidle i).symm.trans hcall

omit [DecidableEq ι] in
theorem Orderly.of_loaded (h : Orderly r sent held s) {i : ι} {snap : Snapshot} {prev : AlertState}
    (hcall : s.calls i = .loaded snap prev) : prev = loadState s.db r.key ∧ (∀ j, j ≠ i → s.calls j = .idle) ∧
      Debounced r prev ∧ prev.firing = flagOf (nextEdge .firing sent) ∧
      (r.holds snap = true → prev.consecutive + 1 ≤ held ∨ r.debounce ≤ held) := by
  cases h with
  | free hidle => cases (hidle i).symm.trans hcall
  | loaded j snap' hcall' hothers hdebounced hflag hcounted =>
    by_cases hij : i = j
    · subst hij
      obtain ⟨rfl,rfl⟩ := RuleCall.loaded.inj (hcall.symm.trans hcall')
      exact ⟨rfl,hothers,hdebounced,hflag,hcounted⟩
    · cases (hothers i hij).symm.trans hcall
  | notified j e hcall' hothers =>
    by_cases hij : i = j
    · subst hij
      cases hcall.symm.trans hcall'
    · cases (hothers i hij).symm.trans hcall

omit [DecidableEq ι] in
theorem Orderly.of_notified (h : Orderly r sent held s) {i : ι} {e : Evaluation} (hcall : s.calls i = .notified e) :
    (∀ j, j ≠ i → s.calls j = .idle) ∧ Sound r sent held e.firing e.consecutive := by
  cases h with
  | free hidle => cases (hidle i).symm.trans hcall
  | loaded j snap' hcall' hothers =>
    by_cases hij : i = j
    · subst hij
      cases hcall.symm.trans hcall'
    · cases (hothers i hij).symm.trans hcall
  | notified j e' hcall' hothers hsound =>
    by_cases hij : i = j
    · subst hij
      obtain rfl := RuleCall.notified.inj (hcall.symm.trans hcall')
      exact ⟨hothers,hsound⟩
    · cases (hothers i hij).symm.trans hcall

theorem loadState_saveState (db : AlertDb) (r : Rule) (e : Evaluation) (now : Instant) :
    (loadState (saveState db r e now) r.key).firing = e.firing ∧ (loadState (saveState db r e now) r.key).consecutive = e.consecutive := by
  have hsaved : (saveState db r e now).states r.key = some ⟨e.firing,r.level,e.firingSince,isoformat now,
      String.ofList (e.message.toList.take 300),if e.edge.isSome then some (isoformat now) else (db.states r.key).bind AlertState.lastNotified,
      e.consecutive⟩ := Function.update_self ..
  unfold loadState
  rw [hsaved]
  exact ⟨rfl,rfl⟩

theorem put_others {c : RuleCall} {i : ι} (h : ∀ j, j ≠ i → s.calls j = .idle) : ∀ j, j ≠ i → (s.put i c).calls j = .idle := by
  intro j hj
  exact (Function.update_of_ne hj ..).trans (h j hj)

theorem cycles_load {front : List (CallMove ι)} {t : CallMove ι} {i : ι} {snap : Snapshot} (h : t.label = .load i snap) :
    cycles r poller (front ++ [t]) = cycles r poller front ++ if i = poller then [r.holds snap] else [] := by
  unfold cycles
  rw [List.filterMap_append, List.filterMap_cons, h]
  by_cases hi : i = poller <;> simp [hi]

theorem cycles_other {front : List (CallMove ι)} {t : CallMove ι} (h : ∀ i snap, t.label ≠ .load i snap) :
    cycles r poller (front ++ [t]) = cycles r poller front := by
  unfold cycles
  rw [List.filterMap_append, List.filterMap_cons]
  cases hlabel : t.label with
  | load i snap => exact absurd hlabel (h i snap)
  | _ => exact List.append_nil _

omit [DecidableEq ι] in
theorem callEdges_other {t : CallMove ι} (h : ∀ i now, t.label ≠ .send i now) : callEdges r t = [] := by
  unfold callEdges
  cases hlabel : t.label with
  | send i now => exact absurd hlabel (h i now)
  | _ => rfl

theorem Orderly.load {i : ι} {snap : Snapshot} {held' : ℕ} (h : Orderly r sent held s) (hidle : ∀ j, s.calls j = .idle)
    (hheld : r.holds snap = true → (held' = held + 1 ∨ (held' = held ∧ r.debounce ≤ held))) :
    Orderly r sent held' (s.put i (.loaded snap (loadState s.db r.key))) := by
  have hsound := h.free_of_idle hidle
  refine .loaded i snap (Function.update_self ..) (put_others (fun j _ => hidle j)) hsound.debounced hsound.flag (fun hholds => ?_)
  change (loadState s.db r.key).consecutive + 1 ≤ held' ∨ r.debounce ≤ held'
  rcases hheld hholds with rfl | ⟨rfl,henough⟩
  · exact hsound.counted.imp Nat.succ_le_succ Nat.le_succ_of_le
  · exact Or.inr henough

theorem Orderly.send (hr : r ∈ rules) {i : ι} {snap : Snapshot} {prev : AlertState} {now : Instant} (h : Orderly r sent held s)
    (hcall : s.calls i = .loaded snap prev) (hunheld : prev.firing = true → isSilenced s.db r.key now = none) :
    Orderly r (sent ++ (s.evaluation r snap prev now).edge.toList) held (s.put i (.notified (s.evaluation r snap prev now))) := by
  obtain ⟨-,hothers,hdebounced,hflag,hcounted⟩ := h.of_loaded hcall
  have hturn := (@evaluate_takes_turn r snap prev (isSilenced s.db r.key now).isSome sent (debounce_pos hr) hdebounced
    (fun hf => by rw [hunheld hf]; rfl) hflag).1
  refine .notified i _ (Function.update_self ..) (put_others hothers) ⟨fun hf => ?_,hturn,?_⟩
  · rw [Shared.evaluation, evaluate_firing, Bool.and_eq_true, decide_eq_true_eq] at hf
    exact hf.1
  · rw [Shared.evaluation, evaluate_consecutive]
    split
    · rename_i hholds
      exact hcounted hholds
    · exact Or.inl (Nat.zero_le _)

theorem Orderly.save {i : ι} {e : Evaluation} {now : Instant} (h : Orderly r sent held s) (hcall : s.calls i = .notified e) :
    Orderly r sent held { s.put i .idle with db := saveState s.db r e now } := by
  obtain ⟨hothers,hsound⟩ := h.of_notified hcall
  obtain ⟨hfiring,hconsecutive⟩ := loadState_saveState s.db r e now
  refine .free (fun j => ?_) ?_
  · rcases eq_or_ne j i with rfl | hj
    · exact Function.update_self ..
    · exact put_others hothers j hj
  · rw [hfiring, hconsecutive]
    exact hsound

omit [DecidableEq ι] in
theorem Orderly.others (h : Orderly r sent held s) (hcalls : s'.calls = s.calls) (hstate : s'.db.states r.key = s.db.states r.key) :
    Orderly r sent held s' := by
  have hload : loadState s'.db r.key = loadState s.db r.key := by
    unfold loadState
    rw [hstate]
  cases h with
  | free hidle hsound => exact .free (fun j => by rw [hcalls]; exact hidle j) (by rw [hload]; exact hsound)
  | loaded i snap hcall hothers hdebounced hflag hcounted =>
    exact .loaded i snap (by rw [hcalls, hload]; exact hcall) (fun j hj => by rw [hcalls]; exact hothers j hj)
      (by rw [hload]; exact hdebounced) (by rw [hload]; exact hflag) (by rw [hload]; exact hcounted)
  | notified i e hcall hothers hsound =>
    exact .notified i e (by rw [hcalls]; exact hcall) (fun j hj => by rw [hcalls]; exact hothers j hj) hsound

theorem Orderly.step (hr : r ∈ rules) {front : List (CallMove ι)} {t : CallMove ι}
    (h : Orderly r sent (heldFor (cycles r poller front)) t.before) (hs : CallStep r t.before t.label t.after)
    (hC : Undisturbed r poller front t) :
    Orderly r (sent ++ callEdges r t) (heldFor (cycles r poller (front ++ [t]))) t.after := by
  obtain ⟨before,label,after⟩ := t
  change CallStep r before label after at hs
  cases hs with
  | @load i snap hidle =>
    rw [callEdges_other (by simp), List.append_nil, cycles_load rfl]
    refine h.load (hC.alone i snap rfl) (fun hholds => ?_)
    by_cases hi : i = poller
    · rw [if_pos hi, hholds, heldFor_true]
      exact Or.inl rfl
    · rw [if_neg hi, List.append_nil]
      exact Or.inr ⟨rfl,heldLast_iff.mp (hC.debounced i snap rfl hi hholds)⟩
  | @send i snap prev now hcall =>
    have hedges : callEdges r (⟨before,.send i now,before.put i (.notified (before.evaluation r snap prev now))⟩ : CallMove ι) =
        (before.evaluation r snap prev now).edge.toList := by
      unfold callEdges
      dsimp only
      rw [hcall]
    rw [hedges, cycles_other (by simp)]
    exact h.send hr hcall (hC.unheld i now snap prev rfl hcall)
  | @save i e now hcall =>
    rw [callEdges_other (by simp), List.append_nil, cycles_other (by simp)]
    exact h.save hcall
  | others hcalls hstate =>
    rw [callEdges_other (by simp), List.append_nil, cycles_other (by simp)]
    exact h.others hcalls hstate

theorem Orderly.takes_turn (hr : r ∈ rules) {front : List (CallMove ι)} {t : CallMove ι} (h : Orderly r sent held t.before)
    (hC : Undisturbed r poller front t) : Alternates (nextEdge .firing sent) (callEdges r t) := by
  unfold callEdges
  split
  · rename_i i now hlabel
    split
    · rename_i snap prev hcall
      obtain ⟨-,-,hdebounced,hflag,-⟩ := h.of_loaded hcall
      exact (@evaluate_takes_turn r snap prev (isSilenced t.before.db r.key now).isSome sent (debounce_pos hr) hdebounced
        (fun hf => by rw [hC.unheld i now snap prev hlabel hcall hf]; rfl) hflag).2
    · trivial
  · trivial

/-- Alone, the three steps of a call are the turn of the rule in a tick. -/
theorem uninterrupted_call (r : Rule) (s : Shared ι) (snap : Snapshot) (clock : Readings) (k : Tick) (hk : k.db = s.db) {i : ι}
    (hidle : s.calls i = .idle) :
    ∃ ts s', Trace (CallStep r) s ts s' ∧ s'.db = (Tick.turn snap clock k r).db ∧
      edgesOf r.key (Tick.turn snap clock k r).sent = edgesOf r.key k.sent ++ sentEdges r ts := by
  obtain ⟨s₁,hs₁⟩ : ∃ s₁, s₁ = s.put i (.loaded snap (loadState s.db r.key)) := ⟨_,rfl⟩
  obtain ⟨e,he⟩ : ∃ e, e = s₁.evaluation r snap (loadState s.db r.key) (clock.silenced r.key) := ⟨_,rfl⟩
  have hloaded : s₁.calls i = .loaded snap (loadState s.db r.key) := hs₁ ▸ Function.update_self ..
  have hload : CallStep r s (.load i snap) s₁ := hs₁ ▸ .load hidle
  have hsend : CallStep r s₁ (.send i (clock.silenced r.key)) (s₁.put i (.notified e)) := he ▸ .send hloaded
  have hsave : CallStep r (s₁.put i (.notified e)) (.save i (clock.saved r.key))
      { (s₁.put i (.notified e)).put i .idle with db := saveState s₁.db r e (clock.saved r.key) } := .save (Function.update_self ..)
  have heval : e = evaluationIn k.db snap clock r := by
    rw [he, hs₁, hk]
    rfl
  refine ⟨_,_,((Trace.single hload).snoc hsend).snoc hsave,?_,?_⟩
  · change saveState s₁.db r e (clock.saved r.key) = saveState k.db r (evaluationIn k.db snap clock r) (clock.saved r.key)
    rw [heval, hs₁, hk]
    rfl
  · rw [(@own_turn snap clock r k).2.2, ← heval]
    refine congrArg (_ ++ ·) ?_
    have hedges : callEdges r (⟨s₁,.send i (clock.silenced r.key),s₁.put i (.notified e)⟩ : CallMove ι) = e.edge.toList := by
      unfold callEdges
      dsimp only
      rw [hloaded, he]
    unfold sentEdges
    simp only [List.cons_append, List.nil_append, List.flatMap_cons, List.flatMap_nil, List.append_nil, hedges]
    rw [callEdges_other (by simp), callEdges_other (by simp), List.nil_append, List.append_nil]

theorem orderly_of_trace (hr : r ∈ rules) {init : Shared ι} {ts : List (CallMove ι)} (h : Trace (CallStep r) init ts s)
    (hidle : ∀ i, init.calls i = .idle) (h0 : init.db.states r.key = none)
    (hC : ∀ front t back, ts = front ++ t :: back → Undisturbed r poller front t) :
    Orderly r (sentEdges r ts) (heldFor (cycles r poller ts)) s ∧ Alternates .firing (sentEdges r ts) := by
  induction h with
  | nil =>
    have hload : loadState init.db r.key = ⟨false,lvlInfo,none,"","",none,0⟩ := by
      unfold loadState
      rw [h0]
      rfl
    refine ⟨.free hidle ?_,trivial⟩
    rw [hload]
    exact ⟨fun hf => (by cases hf),rfl,Or.inl (Nat.zero_le _)⟩
  | @snoc ts s s' a h hs ih =>
    obtain ⟨horderly,halternates⟩ := ih (fun front t back hts => hC front t (back ++ [⟨s,a,s'⟩]) (by simp [hts]))
    have hlast := hC ts ⟨s,a,s'⟩ [] rfl
    have hedges : sentEdges r (ts ++ [⟨s,a,s'⟩]) = sentEdges r ts ++ callEdges r ⟨s,a,s'⟩ := by
      unfold sentEdges
      rw [List.flatMap_append, List.flatMap_singleton]
    rw [hedges]
    exact ⟨horderly.step hr hs hlast,(alternates_append ..).mpr ⟨halternates,horderly.takes_turn hr hlast⟩⟩

end

/-! ## Runs on fixed inputs -/

/-- One caller, whose three steps come together. -/
def call {ι : Type*} (i : ι) (snap : Snapshot) (now : Instant) : List (CallAction ι) := [.load i snap,.send i now,.save i now]

/-- The step of an action; nothing happens where the caller is elsewhere. -/
def Shared.next (r : Rule) (s : Shared ι) : CallAction ι → Shared ι
  | .load i snap => s.put i (.loaded snap (loadState s.db r.key))
  | .send i now =>
    match s.calls i with
    | .loaded snap prev => s.put i (.notified (s.evaluation r snap prev now))
    | _ => s
  | .save i now =>
    match s.calls i with
    | .notified e => { s.put i .idle with db := saveState s.db r e now }
    | _ => s
  | .others => s

def Shared.enabled (s : Shared ι) : CallAction ι → Bool
  | .load i _ => match s.calls i with
    | .idle => true
    | _ => false
  | .send i _ => match s.calls i with
    | .loaded _ _ => true
    | _ => false
  | .save i _ => match s.calls i with
    | .notified _ => true
    | _ => false
  | .others => true

end Protek.Alerts
