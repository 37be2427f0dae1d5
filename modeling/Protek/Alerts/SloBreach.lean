import Mathlib.Data.List.Nodup
import Protek.Alerts.Latch
import Protek.Foundation.FromIso
import Protek.Foundation.Rounding
import Protek.Store.Settings

/-! # Sustained breaches

An objective that stays breached for the grace period is announced once. Its breach clock
and its flag are settings, and a call that finds the alerts switched off reads neither.
-/
namespace Protek.Alerts
open Foundation Foundation.Clock Foundation.PyText Protek.Store

/-! ## The call -/

structure Slo where
  key : String
  title : String
  deriving DecidableEq

/-- `SLOS`. -/
def slos : List Slo :=
  [⟨"sync_success","Reconcile cycle success rate"⟩,⟨"sync_duration","Reconcile cycle duration"⟩,⟨"poll_freshness","Poll freshness"⟩]

/-- What `evaluate` finds of an objective. -/
structure Sample where
  valueStr : String
  targetStr : String
  burnRate : ℚ
  compliant : Bool

structure SloAlert where
  key : String
  edge : Edge
  subject : String
  message : String

structure SloCall where
  settings : Settings
  sent : List SloAlert
  raised : Bool

def breachKey (key : String) : String := "slo." ++ key ++ ".breach_started_at"

def alertedKey (key : String) : String := "slo." ++ key ++ ".alerted"

def enabledKey : String := "slo.alerts_enabled"

def DEFAULT_GRACE_MIN : ℤ := 5

def graceMin (T : CharTable) (settings : Settings) (grace_min : Option ℤ) : ℤ :=
  match grace_min with
  | some g => g
  | none => (pyInt T (orElse (settings "slo.grace_min") (toString DEFAULT_GRACE_MIN))).getD DEFAULT_GRACE_MIN

def breachAlert (s : Slo) (r : Sample) (mins : ℚ) : SloAlert :=
  ⟨s.key,.firing,"[SLO] " ++ s.key ++ " breach sustained",
    "SLO `" ++ s.key ++ "` (" ++ s.title ++ ") breached for " ++ fixed 1 mins ++ " min — observed " ++ r.valueStr ++
      ", target " ++ r.targetStr ++ ", burn rate " ++ fixed 1 r.burnRate ++ "x."⟩

def recoveryAlert (s : Slo) (r : Sample) : SloAlert :=
  ⟨s.key,.resolved,"[SLO] " ++ s.key ++ " recovered",
    "SLO `" ++ s.key ++ "` (" ++ s.title ++ ") recovered — now at " ++ r.valueStr ++ " (target " ++ r.targetStr ++ ")."⟩

def clearClock (settings : Settings) (key : String) : Settings :=
  if settings.text (breachKey key) = "" then settings else settings.set (breachKey key) ""

/-- One round of the loop. A naive start raises where it is taken from the aware `now`. -/
def SloCall.turn (now : Instant) (grace : ℤ) (samples : String → Sample) (c : SloCall) (s : Slo) : SloCall :=
  if c.raised then c else
  let r := samples s.key
  let breachStarted := c.settings.text (breachKey s.key)
  let alerted := c.settings.flag (alertedKey s.key)
  if r.compliant then
    if alerted then
      { c with settings := (clearClock c.settings s.key).set (alertedKey s.key) "0", sent := c.sent ++ [recoveryAlert s r] }
    else { c with settings := clearClock c.settings s.key }
  else if breachStarted = "" then { c with settings := c.settings.set (breachKey s.key) (isoformat now) }
  else match fromisoformat (zuluToOffset breachStarted) with
    | none => { c with settings := c.settings.set (breachKey s.key) (isoformat now) }
    | some d => match d.aware with
      | none => { c with raised := true }
      | some started =>
        if grace * (60 * second) ≤ now - started ∧ alerted = false then
          { c with
            settings := c.settings.set (alertedKey s.key) "1"
            sent := c.sent ++ [breachAlert s r ((now - started : ℤ) / (60 * second : ℚ))] }
        else c

def alertIfBreached (T : CharTable) (settings : Settings) (now : Instant) (grace_min : Option ℤ)
    (samples : String → Sample) : SloCall :=
  if settings.flag enabledKey then slos.foldl (SloCall.turn now (graceMin T settings grace_min) samples) ⟨settings,[],false⟩
  else ⟨settings,[],false⟩

/-! ## Runs -/

inductive SloAction
  | check (now : Instant) (grace_min : Option ℤ) (samples : String → Sample)
  | setEnabled (now : Instant) (value : String)
  /-- Whatever else is written: not the clocks, the flags and the switch. -/
  | others (now : Instant)

def SloAction.now : SloAction → Instant
  | .check now _ _ => now
  | .setEnabled now _ => now
  | .others now => now

/-- The clock is that of the last action. -/
structure SloWorld where
  settings : Settings
  clock : Instant

def sloKeys : List String := enabledKey :: slos.flatMap (fun s => [breachKey s.key,alertedKey s.key])

def SloStep (T : CharTable) (w : SloWorld) (a : SloAction) (w' : SloWorld) : Prop :=
  w'.clock = a.now ∧ match a with
    | .check now grace_min samples => now < endOfTime ∧ w'.settings = (alertIfBreached T w.settings now grace_min samples).settings
    | .setEnabled _ value => w'.settings = w.settings.set enabledKey value
    | .others _ => ∀ k ∈ sloKeys, w'.settings k = w.settings k

abbrev SloMove := Transition SloWorld SloAction

def sloEdgesOf (key : String) (sent : List SloAlert) : List Edge := (sent.filter (fun n => n.key = key)).map SloAlert.edge

/-- What one step announces of an objective. -/
def sloEdgesAt (T : CharTable) (key : String) (t : SloMove) : List Edge :=
  match t.label with
  | .check now grace_min samples => sloEdgesOf key (alertIfBreached T t.before.settings now grace_min samples).sent
  | _ => []

def sloEdges (T : CharTable) (key : String) (ts : List SloMove) : List Edge := ts.flatMap (sloEdgesAt T key)

/-- At an alert, throughout the grace period before it, the alerts were on and the checks found the objective breached. -/
def Sustained (T : CharTable) (key : String) (ts : List SloMove) : Prop :=
  ∀ front t back now grace_min samples, ts = front ++ t :: back → t.label = .check now grace_min samples →
    .firing ∈ sloEdgesAt T key t → ∀ v ∈ front ++ [t],
      (now : ℤ) - graceMin T t.before.settings grace_min * (60 * second) < v.label.now →
        v.before.settings.flag enabledKey = true ∧
          ∀ now' grace_min' samples', v.label = .check now' grace_min' samples' → (samples' key).compliant = false

/-- No breach is recorded. -/
def NoBreach (settings : Settings) : Prop :=
  ∀ s ∈ slos, settings.text (breachKey s.key) = "" ∧ settings.flag (alertedKey s.key) = false

/-- The clock does not run back, and the alerts are not switched off while the breach clock of the objective runs. -/
def Steady (key : String) (t : SloMove) : Prop :=
  t.before.clock ≤ t.label.now ∧
    ∀ now value, t.label = .setEnabled now value → t.before.settings.text (breachKey key) ≠ "" → value = "1"

/-! ## One objective in a call -/

/-- The texts that the calls write. -/
def OwnText (text : String) : Prop := text = "" ∨ ∃ t < endOfTime, text = isoformat t

def OwnClocks (settings : Settings) : Prop := ∀ s ∈ slos, OwnText (settings.text (breachKey s.key))

/-- What a check does to the breach clock and the flag of an objective, next to what it announces. -/
inductive BreachMove (now : Instant) (grace : ℤ) (sample : Sample) : String × Bool → String × Bool → List Edge → Prop
  | started (up : Bool) (h : sample.compliant = false) : BreachMove now grace sample ("",up) (isoformat now,up) []
  | waiting (t : Instant) (ht : t < endOfTime) (up : Bool) (h : sample.compliant = false) :
      BreachMove now grace sample (isoformat t,up) (isoformat t,up) []
  | fired (t : Instant) (ht : t < endOfTime) (h : sample.compliant = false) (hgrace : grace * (60 * second) ≤ (now : ℤ) - t) :
      BreachMove now grace sample (isoformat t,false) (isoformat t,true) [.firing]
  | cleared (text : String) (h : sample.compliant = true) : BreachMove now grace sample (text,false) ("",false) []
  | recovered (text : String) (h : sample.compliant = true) : BreachMove now grace sample (text,true) ("",false) [.resolved]

def breachState (settings : Settings) (key : String) : String × Bool :=
  (settings.text (breachKey key),settings.flag (alertedKey key))

theorem sloKeys_apart : (∀ a ∈ slos, ∀ b ∈ slos, breachKey a.key ≠ alertedKey b.key) ∧
    (∀ a ∈ slos, ∀ b ∈ slos, a.key ≠ b.key → breachKey a.key ≠ breachKey b.key ∧ alertedKey a.key ≠ alertedKey b.key) ∧
    (∀ a ∈ slos, enabledKey ≠ breachKey a.key ∧ enabledKey ≠ alertedKey a.key) ∧ (slos.map Slo.key).Nodup := by
  decide +kernel

theorem clearClock_of_ne {settings : Settings} {key k : String} (h : k ≠ breachKey key) :
    clearClock settings key k = settings k := by
  unfold clearClock
  split
  · rfl
  · exact Settings.set_of_ne h

theorem text_clearClock (settings : Settings) (key : String) : (clearClock settings key).text (breachKey key) = "" := by
  unfold clearClock
  split
  · assumption
  · exact Settings.text_set_self

section
variable {now : Instant} {grace : ℤ} {samples : String → Sample}

/-- A round leaves the settings of the other objectives alone. -/
theorem turn_settings (c : SloCall) (s : Slo) {k : String} (hb : k ≠ breachKey s.key) (ha : k ≠ alertedKey s.key) :
    (c.turn now grace samples s).settings k = c.settings k := by
  unfold SloCall.turn
  dsimp only
  split_ifs
  · rfl
  · exact (Settings.set_of_ne ha).trans (clearClock_of_ne hb)
  · exact clearClock_of_ne hb
  · exact Settings.set_of_ne hb
  · split
    · exact Settings.set_of_ne hb
    · split
      · rfl
      · split
        · exact Settings.set_of_ne ha
        · rfl

/-- A round announces nothing of the other objectives. -/
theorem turn_sent (c : SloCall) (s : Slo) {key : String} (h : s.key ≠ key) :
    sloEdgesOf key (c.turn now grace samples s).sent = sloEdgesOf key c.sent := by
  have hother : ∀ n : SloAlert, n.key = s.key → sloEdgesOf key (c.sent ++ [n]) = sloEdgesOf key c.sent := by
    intro n hn
    unfold sloEdgesOf
    rw [List.filter_append, List.filter_cons_of_neg (by simpa [hn] using h)]
    simp
  unfold SloCall.turn
  dsimp only
  split_ifs
  · rfl
  · exact hother _ rfl
  · rfl
  · rfl
  · split
    · rfl
    · split
      · rfl
      · split
        · exact hother _ rfl
        · rfl

theorem sloEdgesOf_concat {key : String} {sent : List SloAlert} {n : SloAlert} (h : n.key = key) :
    sloEdgesOf key (sent ++ [n]) = sloEdgesOf key sent ++ [n.edge] := by
  unfold sloEdgesOf
  rw [List.filter_append, List.map_append, List.filter_cons_of_pos (by simpa using h)]
  rfl

/-- The round of an objective. -/
theorem own_round {c : SloCall} {s : Slo} (hs : s ∈ slos) (hr : c.raised = false) (hown : OwnText (c.settings.text (breachKey s.key))) :
    (c.turn now grace samples s).raised = false ∧ ∃ edges,
      BreachMove now grace (samples s.key) (breachState c.settings s.key) (breachState (c.turn now grace samples s).settings s.key) edges ∧
        sloEdgesOf s.key (c.turn now grace samples s).sent = sloEdgesOf s.key c.sent ++ edges := by
  have hapart := sloKeys_apart.1 s hs s hs
  unfold SloCall.turn breachState
  rw [if_neg (by simp [hr])]
  dsimp only
  cases hc : (samples s.key).compliant with
  | true =>
    rw [if_pos rfl]
    cases hup : c.settings.flag (alertedKey s.key) with
    | true =>
      rw [if_pos rfl]
      refine ⟨hr,[.resolved],?_,sloEdgesOf_concat rfl⟩
      dsimp only
      rw [Settings.text_set_of_ne hapart, text_clearClock, Settings.flag_set_zero]
      exact .recovered _ hc
    | false =>
      rw [if_neg (by simp)]
      refine ⟨hr,[],?_,(List.append_nil _).symm⟩
      have hflag : (clearClock c.settings s.key).flag (alertedKey s.key) = false := by
        rw [Settings.flag, clearClock_of_ne hapart.symm]
        exact hup
      dsimp only
      rw [text_clearClock, hflag]
      exact .cleared _ hc
  | false =>
    rw [if_neg (by simp)]
    rcases hown with hempty | ⟨t,ht,htext⟩
    · rw [if_pos hempty, hempty]
      refine ⟨hr,[],?_,(List.append_nil _).symm⟩
      dsimp only
      rw [Settings.text_set_self, Settings.flag_set_of_ne hapart.symm]
      exact .started _ hc
    · rw [htext, if_neg (isoformat_ne_empty t), zuluToOffset_isoformat, fromisoformat_isoformat ht]
      dsimp only [DateTime.aware, Option.map_some]
      rw [sub_zero]
      split
      · rename_i hgrace
        refine ⟨hr,[.firing],?_,sloEdgesOf_concat rfl⟩
        dsimp only
        rw [Settings.text_set_of_ne hapart, Settings.flag_set_one, htext, hgrace.2]
        exact .fired t ht hc hgrace.1
      · refine ⟨hr,[],?_,(List.append_nil _).symm⟩
        rw [htext]
        exact .waiting t ht _ hc

theorem BreachMove.own {x y : String × Bool} {edges : List Edge} {sample : Sample} (h : BreachMove now grace sample x y edges)
    (hnow : now < endOfTime) : OwnText y.1 := by
  cases h with
  | started => exact Or.inr ⟨now,hnow,rfl⟩
  | waiting t ht => exact Or.inr ⟨t,ht,rfl⟩
  | fired t ht => exact Or.inr ⟨t,ht,rfl⟩
  | cleared => exact Or.inl rfl
  | recovered => exact Or.inl rfl

theorem BreachMove.latch {x y : String × Bool} {edges : List Edge} {sample : Sample} (h : BreachMove now grace sample x y edges) :
    LatchMove x.2 y.2 edges := by
  cases h with
  | started => exact .kept _
  | waiting => exact .kept _
  | fired => exact .fired
  | cleared => exact .kept _
  | recovered => exact .resolved

/-- The rounds of the other objectives leave an objective as it was. -/
theorem breachState_of_ne {s o : Slo} (hs : s ∈ slos) (ho : o ∈ slos) (h : s.key ≠ o.key) (c : SloCall) :
    breachState (c.turn now grace samples s).settings o.key = breachState c.settings o.key := by
  have hb : breachKey o.key ≠ breachKey s.key := (sloKeys_apart.2.1 o ho s hs h.symm).1
  have ha : alertedKey o.key ≠ alertedKey s.key := (sloKeys_apart.2.1 o ho s hs h.symm).2
  unfold breachState Settings.text Settings.flag
  rw [turn_settings c s hb (sloKeys_apart.1 o ho s hs), turn_settings c s (sloKeys_apart.1 s hs o ho).symm ha]

/-- No round of a call raises, and the clocks stay texts of the calls. -/
def Unraised (c : SloCall) : Prop := c.raised = false ∧ OwnClocks c.settings

theorem Unraised.turn {c : SloCall} (h : Unraised c) (hnow : now < endOfTime) {s : Slo} (hs : s ∈ slos) :
    Unraised (c.turn now grace samples s) := by
  obtain ⟨hraised,edges,hmove,-⟩ := @own_round now grace samples c s hs h.1 (h.2 s hs)
  refine ⟨hraised,fun o ho => ?_⟩
  by_cases hkey : s.key = o.key
  · rw [← hkey]
    exact hmove.own hnow
  · have hother := @breachState_of_ne now grace samples s o hs ho hkey c
    exact (congrArg (fun x : String × Bool => OwnText x.1) hother).mpr (h.2 o ho)

theorem slos_apart {s o : Slo} (hs : s ∈ slos) (ho : o ∈ slos) (h : s ≠ o) : s.key ≠ o.key :=
  fun hkey => h (List.inj_on_of_nodup_map sloKeys_apart.2.2.2 hs ho hkey)

/-- An objective has one round in a call. -/
theorem rounds_move {settings : Settings} (hown : OwnClocks settings) (hnow : now < endOfTime) {o : Slo} (ho : o ∈ slos) :
    BreachMove now grace (samples o.key) (breachState settings o.key)
      (breachState (slos.foldl (SloCall.turn now grace samples) ⟨settings,[],false⟩).settings o.key)
      (sloEdgesOf o.key (slos.foldl (SloCall.turn now grace samples) ⟨settings,[],false⟩).sent) := by
  obtain ⟨c,hc,hbefore,hafter⟩ := @foldl_own _ _ _ (SloCall.turn now grace samples) slos o ho (List.Nodup.of_map _ sloKeys_apart.2.2.2)
    Unraised (fun _ _ hs hc => hc.turn hnow hs) (fun c : SloCall => (breachState c.settings o.key,sloEdgesOf o.key c.sent))
    (fun c s hs hne => Prod.ext (breachState_of_ne hs ho (slos_apart hs ho hne) c) (turn_sent c s (slos_apart hs ho hne)))
    ⟨settings,[],false⟩ ⟨rfl,hown⟩
  obtain ⟨hstate,hsent⟩ := Prod.mk.inj hbefore
  obtain ⟨hstate',hsent'⟩ := Prod.mk.inj hafter
  obtain ⟨-,edges,hmove,hedges⟩ := @own_round now grace samples c o ho hc.1 (hc.2 o ho)
  rw [hstate', hsent', hedges, hsent, ← hstate]
  exact hmove

end

/-! ## Steps -/

section
variable {T : CharTable} {o : Slo} {w w' : SloWorld}

theorem enabled_of_rounds (settings : Settings) (now : Instant) (grace : ℤ) (samples : String → Sample) :
    (slos.foldl (SloCall.turn now grace samples) ⟨settings,[],false⟩).settings enabledKey = settings enabledKey :=
  foldl_keeps (fun c : SloCall => c.settings enabledKey) (fun c s hs =>
    turn_settings c s (sloKeys_apart.2.2.1 s hs).1 (sloKeys_apart.2.2.1 s hs).2)

/-- What a step does to an objective. -/
inductive SloChange (T : CharTable) (key : String) (t : SloMove) : Prop
  | kept (h : breachState t.after.settings key = breachState t.before.settings key) (hedges : sloEdgesAt T key t = [])
      (hswitch : t.after.settings.flag enabledKey = t.before.settings.flag enabledKey)
      (hidle : ∀ now g samples, t.label = .check now g samples → t.before.settings.flag enabledKey = false)
  | switched (now : Instant) (value : String) (hlabel : t.label = .setEnabled now value)
      (h : breachState t.after.settings key = breachState t.before.settings key) (hedges : sloEdgesAt T key t = [])
      (hswitch : t.after.settings = t.before.settings.set enabledKey value)
  | checked (now : Instant) (g : Option ℤ) (samples : String → Sample) (hlabel : t.label = .check now g samples)
      (hnow : now < endOfTime) (hon : t.before.settings.flag enabledKey = true) (hswitch : t.after.settings.flag enabledKey = true)
      (hmove : BreachMove now (graceMin T t.before.settings g) (samples key) (breachState t.before.settings key)
        (breachState t.after.settings key) (sloEdgesAt T key t))

theorem sloChange_of_step (ho : o ∈ slos) {t : SloMove} (hown : OwnClocks t.before.settings)
    (hs : SloStep T t.before t.label t.after) : SloChange T o.key t := by
  obtain ⟨before,label,after⟩ := t
  obtain ⟨-,hs⟩ := hs
  cases label with
  | check now g samples =>
    obtain ⟨hnow,hafter⟩ : now < endOfTime ∧ after.settings = (alertIfBreached T before.settings now g samples).settings := hs
    cases hon : before.settings.flag enabledKey with
    | true =>
      have hcall : alertIfBreached T before.settings now g samples =
          slos.foldl (SloCall.turn now (graceMin T before.settings g) samples) ⟨before.settings,[],false⟩ := by
        rw [alertIfBreached, if_pos hon]
      have hswitch : after.settings.flag enabledKey = true := by
        rw [hafter, hcall, Settings.flag, enabled_of_rounds]
        exact hon
      refine .checked now g samples rfl hnow hon hswitch ?_
      change BreachMove _ _ _ _ (breachState after.settings o.key) (sloEdgesOf o.key (alertIfBreached T before.settings now g samples).sent)
      rw [hafter, hcall]
      exact rounds_move hown hnow ho
    | false =>
      have hcall : alertIfBreached T before.settings now g samples = ⟨before.settings,[],false⟩ := by
        rw [alertIfBreached, if_neg (by simp [hon])]
      rw [hcall] at hafter
      refine .kept (congrArg (breachState · o.key) hafter) ?_ (congrArg (Settings.flag · enabledKey) hafter) (fun _ _ _ _ => hon)
      change sloEdgesOf o.key (alertIfBreached T before.settings now g samples).sent = []
      rw [hcall]
      rfl
  | setEnabled now value =>
    have hafter : after.settings = before.settings.set enabledKey value := hs
    refine .switched now value rfl ?_ rfl hafter
    obtain ⟨hb,ha⟩ := sloKeys_apart.2.2.1 o ho
    change breachState after.settings o.key = _
    rw [hafter, breachState, Settings.text_set_of_ne hb.symm, Settings.flag_set_of_ne ha.symm]
    rfl
  | others now =>
    have hafter : ∀ k ∈ sloKeys, after.settings k = before.settings k := hs
    have hb : breachKey o.key ∈ sloKeys := List.mem_cons_of_mem _ (List.mem_flatMap.mpr ⟨o,ho,List.mem_cons_self⟩)
    have ha : alertedKey o.key ∈ sloKeys :=
      List.mem_cons_of_mem _ (List.mem_flatMap.mpr ⟨o,ho,List.mem_cons_of_mem _ List.mem_cons_self⟩)
    refine .kept ?_ rfl ?_ (by simp)
    · change breachState after.settings o.key = breachState before.settings o.key
      unfold breachState Settings.text Settings.flag
      rw [hafter _ hb, hafter _ ha]
    · change Settings.flag after.settings enabledKey = Settings.flag before.settings enabledKey
      unfold Settings.flag
      rw [hafter _ List.mem_cons_self]

theorem ownClocks_step {t : SloMove} (hs : SloStep T t.before t.label t.after) (hown : OwnClocks t.before.settings) :
    OwnClocks t.after.settings := by
  intro o ho
  have hkept : breachState t.after.settings o.key = breachState t.before.settings o.key → OwnText (t.after.settings.text (breachKey o.key)) :=
    fun h => (congrArg (fun x : String × Bool => OwnText x.1) h).mpr (hown o ho)
  cases sloChange_of_step ho hown hs with
  | kept h => exact hkept h
  | switched _ _ _ h => exact hkept h
  | checked _ _ _ _ hnow _ _ hmove => exact hmove.own hnow

end

/-! ## The breach clock tells the truth -/

section
variable {T : CharTable} {o : Slo} {init w : SloWorld} {ts : List SloMove}

/-- The alerts are on, and a check finds the objective breached. -/
def Held (key : String) (v : SloMove) : Prop :=
  v.before.settings.flag enabledKey = true ∧ ∀ now g samples, v.label = .check now g samples → (samples key).compliant = false

/-- A breach clock that runs has been held since it started. -/
structure Truthful (key : String) (ts : List SloMove) (w : SloWorld) : Prop where
  past : ∀ v ∈ ts, v.label.now ≤ w.clock
  clock : w.settings.text (breachKey key) ≠ "" → ∃ started < endOfTime, w.settings.text (breachKey key) = isoformat started ∧
    started ≤ w.clock ∧ w.settings.flag enabledKey = true ∧ ∀ v ∈ ts, started < v.label.now → Held key v

theorem held_of_check {t : SloMove} {key : String} {now : Instant} {g : Option ℤ} {samples : String → Sample}
    (hlabel : t.label = .check now g samples) (hon : t.before.settings.flag enabledKey = true)
    (hbad : (samples key).compliant = false) : Held key t := by
  refine ⟨hon,fun now' g' samples' h => ?_⟩
  obtain ⟨-,-,rfl⟩ := SloAction.check.inj (hlabel.symm.trans h)
  exact hbad

/-- The clock goes on running over a step that holds it. -/
theorem Truthful.runs_on {key : String} {t : SloMove} (h : Truthful key ts t.before) (hmono : t.before.clock ≤ t.after.clock)
    (htext : t.after.settings.text (breachKey key) = t.before.settings.text (breachKey key))
    (hon : t.before.settings.flag enabledKey = true → t.after.settings.flag enabledKey = true ∧ Held key t)
    (hrun : t.after.settings.text (breachKey key) ≠ "") :
    ∃ started < endOfTime, t.after.settings.text (breachKey key) = isoformat started ∧ started ≤ t.after.clock ∧
      t.after.settings.flag enabledKey = true ∧ ∀ v ∈ ts ++ [t], started < v.label.now → Held key v := by
  obtain ⟨started,hbound,hstarted,hle,henabled,hsince⟩ := h.clock (htext ▸ hrun)
  obtain ⟨hafter,hheld⟩ := hon henabled
  refine ⟨started,hbound,htext.trans hstarted,hle.trans hmono,hafter,fun v hv hlater => ?_⟩
  rcases List.mem_append.mp hv with hv | hv
  · exact hsince v hv hlater
  · rw [List.mem_singleton.mp hv]
    exact hheld

theorem Truthful.step (ho : o ∈ slos) {t : SloMove} (h : Truthful o.key ts t.before) (hown : OwnClocks t.before.settings)
    (hs : SloStep T t.before t.label t.after) (hC : Steady o.key t) : Truthful o.key (ts ++ [t]) t.after := by
  have hclock : t.after.clock = t.label.now := hs.1
  have hmono : t.before.clock ≤ t.after.clock := by
    rw [hclock]
    exact hC.1
  refine ⟨fun v hv => ?_,fun hrun => ?_⟩
  · rcases List.mem_append.mp hv with hv | hv
    · exact (h.past v hv).trans hmono
    · rw [List.mem_singleton.mp hv]
      exact hclock.ge
  cases sloChange_of_step ho hown hs with
  | kept hstate _ hswitch hidle =>
    refine h.runs_on hmono (congrArg Prod.fst hstate) (fun hon => ⟨hswitch.trans hon,hon,?_⟩) hrun
    intro now g samples hlabel
    rw [hidle now g samples hlabel] at hon
    cases hon
  | switched now value hlabel hstate _ hswitch =>
    have htext : t.after.settings.text (breachKey o.key) = t.before.settings.text (breachKey o.key) := congrArg Prod.fst hstate
    refine h.runs_on hmono htext (fun hon => ⟨?_,hon,?_⟩) hrun
    · rw [hswitch, hC.2 now value hlabel (htext ▸ hrun), Settings.flag_set_one]
    · intro now' g samples h'
      rw [hlabel] at h'
      cases h'
  | checked now g samples hlabel hnow hon hswitch hmove =>
    have hgoes : ∀ text up up', breachState t.before.settings o.key = (text,up) → breachState t.after.settings o.key = (text,up') →
        (samples o.key).compliant = false → ∃ started < endOfTime, t.after.settings.text (breachKey o.key) = isoformat started ∧
          started ≤ t.after.clock ∧ t.after.settings.flag enabledKey = true ∧
            ∀ v ∈ ts ++ [t], started < v.label.now → Held o.key v := by
      intro text up up' hx hy hbad
      have htext := (congrArg Prod.fst hy).trans (congrArg Prod.fst hx).symm
      exact h.runs_on hmono htext (fun _ => ⟨hswitch,held_of_check hlabel hon hbad⟩) hrun
    have hcleared : ∀ up, breachState t.after.settings o.key ≠ ("",up) := fun up hy => hrun (congrArg Prod.fst hy)
    generalize hx : breachState t.before.settings o.key = x at hmove
    generalize hy : breachState t.after.settings o.key = y at hmove
    generalize sloEdgesAt T o.key t = edges at hmove
    cases hmove with
    | started up hbad =>
      have hnowclock : t.label.now = now := by rw [hlabel]; rfl
      refine ⟨now,hnow,congrArg Prod.fst hy,(hclock.trans hnowclock).ge,hswitch,fun v hv hlater => ?_⟩
      have hpast : v.label.now ≤ now := by
        rcases List.mem_append.mp hv with hv | hv
        · exact (h.past v hv).trans (hC.1.trans hnowclock.le)
        · rw [List.mem_singleton.mp hv]
          exact hnowclock.le
      exact absurd hlater hpast.not_gt
    | waiting started hbound up hbad => exact hgoes _ _ _ hx hy hbad
    | fired started hbound hbad hgrace => exact hgoes _ _ _ hx hy hbad
    | cleared => exact absurd hy (hcleared _)
    | recovered => exact absurd hy (hcleared _)

theorem ownClocks_of_noBreach (h : NoBreach init.settings) : OwnClocks init.settings := fun s hs => Or.inl (h s hs).1

theorem ownClocks_of_trace (h : Trace (SloStep T) init ts w) (h0 : NoBreach init.settings) :
    OwnClocks w.settings ∧ ∀ t ∈ ts, OwnClocks t.before.settings ∧ OwnClocks t.after.settings :=
  h.always (I := fun w => OwnClocks w.settings) (ownClocks_of_noBreach h0) (fun _ => ownClocks_step)

theorem truthful_of_trace (ho : o ∈ slos) (h : Trace (SloStep T) init ts w) (h0 : NoBreach init.settings)
    (hC : ∀ t ∈ ts, Steady o.key t) : Truthful o.key ts w := by
  induction h with
  | nil => exact ⟨by simp,fun hrun => absurd (h0 o ho).1 hrun⟩
  | @snoc ts w w' a h hs ih =>
    have hown := (ownClocks_of_trace h h0).1
    exact (ih (fun t ht => hC t (List.mem_append_left _ ht))).step ho (t := ⟨w,a,w'⟩) hown hs (hC _ (by simp))

/-- An alert of a check finds a clock that has run for the grace period. -/
theorem alert_of_truthful (ho : o ∈ slos) {t : SloMove} (h : Truthful o.key ts t.before) (hown : OwnClocks t.before.settings)
    (hs : SloStep T t.before t.label t.after) {now : Instant} {g : Option ℤ} {samples : String → Sample}
    (hlabel : t.label = .check now g samples) (hfired : .firing ∈ sloEdgesAt T o.key t) :
    ∀ v ∈ ts ++ [t], (now : ℤ) - graceMin T t.before.settings g * (60 * second) < v.label.now → Held o.key v := by
  cases sloChange_of_step ho hown hs with
  | kept _ hedges =>
    rw [hedges] at hfired
    exact absurd hfired List.not_mem_nil
  | switched _ _ _ _ hedges =>
    rw [hedges] at hfired
    exact absurd hfired List.not_mem_nil
  | checked now' g' samples' hlabel' hnow hon hswitch hmove =>
    obtain ⟨rfl,rfl,rfl⟩ := SloAction.check.inj (hlabel.symm.trans hlabel')
    generalize hx : breachState t.before.settings o.key = x at hmove
    generalize breachState t.after.settings o.key = y at hmove
    generalize sloEdgesAt T o.key t = edges at hmove hfired
    cases hmove with
    | fired started hbound hbad hgrace =>
      have htext : t.before.settings.text (breachKey o.key) = isoformat started := congrArg Prod.fst hx
      obtain ⟨started',hbound',hstarted,-,-,hsince⟩ := h.clock (by rw [htext]; exact isoformat_ne_empty started)
      obtain rfl := isoformat_inj hbound hbound' (htext.symm.trans hstarted)
      intro v hv hperiod
      rcases List.mem_append.mp hv with hv | hv
      · exact hsince v hv (Int.ofNat_lt.mp ((by omega : (started : ℤ) ≤ now - _).trans_lt hperiod))
      · rw [List.mem_singleton.mp hv]
        exact held_of_check hlabel hon hbad
    | started => exact absurd hfired List.not_mem_nil
    | waiting => exact absurd hfired List.not_mem_nil
    | cleared => exact absurd hfired List.not_mem_nil
    | recovered => cases List.mem_singleton.mp hfired

/-- Alerts and recoveries of an objective take turns. While the clock does not run back and the alerts are not
switched off during a breach, an alert means that the breach was sustained. -/
theorem slo_alerts_are_sustained (ho : o ∈ slos) (h : Trace (SloStep T) init ts w) (h0 : NoBreach init.settings) :
    Alternates .firing (sloEdges T o.key ts) ∧ ((∀ t ∈ ts, Steady o.key t) → Sustained T o.key ts) := by
  have hown := (ownClocks_of_trace h h0).2
  constructor
  · have hlatch : ∀ t ∈ ts, LatchMove (t.before.settings.flag (alertedKey o.key)) (t.after.settings.flag (alertedKey o.key))
        (sloEdgesAt T o.key t) := by
      intro t ht
      have hkept : breachState t.after.settings o.key = breachState t.before.settings o.key → sloEdgesAt T o.key t = [] →
          LatchMove (t.before.settings.flag (alertedKey o.key)) (t.after.settings.flag (alertedKey o.key)) (sloEdgesAt T o.key t) := by
        intro hstate hedges
        have hflag : t.after.settings.flag (alertedKey o.key) = t.before.settings.flag (alertedKey o.key) := congrArg Prod.snd hstate
        rw [hflag, hedges]
        exact .kept _
      cases sloChange_of_step ho (hown t ht).1 (h.mem_step t ht) with
      | kept hstate hedges => exact hkept hstate hedges
      | switched _ _ _ hstate hedges => exact hkept hstate hedges
      | checked _ _ _ _ _ _ _ hmove => exact hmove.latch
    exact (@latch_alternates _ _ _ _ _ _ (fun w : SloWorld => w.settings.flag (alertedKey o.key)) _ h (h0 o ho).2 hlatch).2
  · rintro hC front t back now g samples rfl hlabel hfired
    have hfront : Truthful o.key front t.before := truthful_of_trace ho h.take h0 (fun v hv => hC v (by simp [hv]))
    exact alert_of_truthful ho hfront (hown t (by simp)).1 (h.mem_step t (by simp)) hlabel hfired

end

/-! ## Runs on fixed inputs -/

/-- The step of an action. -/
def SloWorld.next (T : CharTable) (w : SloWorld) (a : SloAction) : SloWorld :=
  match a with
  | .check now grace_min samples => ⟨(alertIfBreached T w.settings now grace_min samples).settings,now⟩
  | .setEnabled now value => ⟨w.settings.set enabledKey value,now⟩
  | .others now => ⟨w.settings,now⟩

def SloAction.possible : SloAction → Bool
  | .check now _ _ => now < endOfTime
  | _ => true

theorem slo_walk {T : CharTable} {actions : List SloAction} (h : actions.all SloAction.possible = true) (w : SloWorld) :
    Trace (SloStep T) w (walk (SloWorld.next T) w actions) (actions.foldl (SloWorld.next T) w) := by
  refine walk_trace (fun w a ha => ?_) w
  have hpossible := List.all_eq_true.mp h a ha
  cases a with
  | check => exact ⟨rfl,of_decide_eq_true hpossible,rfl⟩
  | setEnabled => exact ⟨rfl,rfl⟩
  | others => exact ⟨rfl,fun _ _ => rfl⟩

def freshSlo : SloWorld := ⟨fun _ => none,0⟩

theorem noBreach_freshSlo : NoBreach freshSlo.settings := fun _ _ => ⟨rfl,rfl⟩

def minutes (n : ℕ) : Instant := n * 60 * second

def breached : String → Sample := fun _ => ⟨"31000 ms","≤ 30000 ms",31 / 30,false⟩

def healthy : String → Sample := fun _ => ⟨"2000 ms","≤ 30000 ms",1 / 15,true⟩

/-- The objective `poll_freshness`. -/
def pollFreshness : Slo := ⟨"poll_freshness","Poll freshness"⟩

def sustainedRun : List SloAction :=
  [.setEnabled (minutes 1) "1",.check (minutes 2) (some 5) breached,.check (minutes 7) (some 5) breached,.check (minutes 9) (some 5) healthy]

theorem slo_alerts_are_sustained_example :
    sloEdges CharTable.ascii pollFreshness.key (walk (SloWorld.next CharTable.ascii) freshSlo sustainedRun) = [.firing,.resolved] ∧
    Sustained CharTable.ascii pollFreshness.key (walk (SloWorld.next CharTable.ascii) freshSlo sustainedRun) := by
  refine ⟨by decide +kernel,(slo_alerts_are_sustained (o := pollFreshness) (by decide +kernel)
    (slo_walk (by decide +kernel) freshSlo) noBreach_freshSlo).2 ?_⟩
  intro t ht
  simp only [sustainedRun, walk, List.mem_cons, List.not_mem_nil, or_false] at ht
  rcases ht with rfl | rfl | rfl | rfl
  · exact ⟨Nat.zero_le _,fun _ _ h _ => (SloAction.setEnabled.inj h).2.symm⟩
  all_goals exact ⟨by decide +kernel,fun _ _ h => (by cases h)⟩

/-- A breach begins, and the alerts are off for an hour in which the objective is healthy. -/
def pausedHour : List SloAction :=
  [.setEnabled (minutes 1) "1",.check (minutes 2) (some 5) breached,.setEnabled (minutes 3) "0",.check (minutes 30) (some 5) healthy]

def afterPause : List SloAction := [.setEnabled (minutes 60) "1",.check (minutes 61) (some 5) breached]

/-- The first check after the pause alerts, although the alerts were off a minute before. -/
theorem alert_after_pause :
    sloEdges CharTable.ascii pollFreshness.key (walk (SloWorld.next CharTable.ascii) freshSlo (pausedHour ++ afterPause)) = [.firing] ∧
    ¬ ∀ o ∈ slos, ∀ ts w, Trace (SloStep CharTable.ascii) freshSlo ts w →
      Alternates .firing (sloEdges CharTable.ascii o.key ts) ∧ Sustained CharTable.ascii o.key ts := by
  refine ⟨by decide +kernel,fun hall => ?_⟩
  have hrun := @slo_walk CharTable.ascii (pausedHour ++ afterPause) (by decide +kernel) freshSlo
  have hsustained := (hall pollFreshness (by decide +kernel) _ _ hrun).2
  rw [walk_append] at hsustained
  obtain ⟨hon,-⟩ := hsustained (walk (SloWorld.next CharTable.ascii) freshSlo pausedHour ++ [_]) _ [] (minutes 61) (some 5) breached
    (List.append_assoc _ [_] [_]).symm rfl (by decide +kernel) _
    (List.mem_append_left _ (List.mem_append_right _ (List.mem_singleton.mpr rfl))) (by decide +kernel)
  revert hon
  decide +kernel

end Protek.Alerts
