import Protek.Alerts.Latch
import Protek.Foundation.FromIso
import Protek.Foundation.PyFloat
import Protek.Store.Settings

/-! # Hygiene findings

A finding that lasts is announced again after the renag period, and once more when it has
gone. One time of a finding says both that it is announced and when it was announced last.
-/
namespace Protek.Alerts
open Foundation Foundation.Clock Foundation.PyText Protek.Store

/-! ## The check -/

def DEFAULT_BACKUP_MAX_AGE_H : ℚ := 36

def DEFAULT_RENAG_H : ℚ := 24

/-- The keys of `MESSAGES`, in its order. -/
def hygieneKeys : List String := ["backup_stale","backup_unverified","retention_disabled"]

def backupStale (age : String) : String :=
  "No successful Protek backup in " ++ age ++ ". Check `systemctl status protek-backup.timer protek-backup.service` " ++
    "and `journalctl -u protek-backup`."

def backupUnverified : String :=
  "The last Protek backup failed its restore-test — the newest bundle may not be restorable."

def retentionDisabled : String :=
  "Protek retention is disabled (retention.enabled != '1'). mt_pushes and decision tombstones will grow without bound."

/-- `_hours` -/
def hours (T : CharTable) (settings : Settings) (key : String) (default : ℚ) : PyFloat :=
  if settings.text key = "" then PyFloat.max 1 (.finite default)
  else match pyFloat T (settings.text key) with
    | some x => PyFloat.max 1 x
    | none => .finite default

/-- `_parse`: a naive time is one of UTC. -/
def parseStored (iso : Option String) : Option ℤ :=
  if orElse iso "" = "" then none else (fromisoformat (zuluToOffset (orElse iso ""))).map DateTime.asUtc

/-- The details of the findings that are current. -/
def findings (T : CharTable) (settings : Settings) (now : Instant) : String → Option String := fun key =>
  if key = "backup_stale" then (parseStored (settings "backup.last_daily_at")).bind (fun last =>
    let ageH : ℚ := (now - last : ℤ) / hour
    if PyFloat.lt (hours T settings "hygiene.backup_max_age_h" DEFAULT_BACKUP_MAX_AGE_H) (.finite ageH) then
      some (backupStale (if 48 ≤ ageH then fixed 1 (ageH / 24) ++ " days" else fixed 0 ageH ++ "h"))
    else none)
  else if key = "backup_unverified" then (if settings "backup.last_test_ok" = some "0" then some backupUnverified else none)
  else if key = "retention_disabled" then
    (if orElse (settings "retention.enabled") "1" ≠ "1" then some retentionDisabled else none)
  else none

structure HygieneAlert where
  key : String
  edge : Edge
  subject : String
  message : String

structure HygieneCall where
  settings : Settings
  sent : List HygieneAlert

def stateKey (key : String) : String := "hygiene." ++ key ++ ".alerted_at"

def spoken (key : String) : String := replaceChar key '_' ' '

/-- `total_seconds` of the time since an instant. -/
def secondsSince (now : Instant) (t : ℤ) : PyFloat := .finite ((now - t : ℤ) / second)

/-- One round of the loop. -/
def HygieneCall.turn (now : Instant) (renag : PyFloat) (current : String → Option String) (c : HygieneCall) (key : String) :
    HygieneCall :=
  let alertedAt := parseStored (c.settings (stateKey key))
  match current key with
  | some detail =>
    if alertedAt.all (fun t => PyFloat.le renag (secondsSince now t)) then
      ⟨c.settings.set (stateKey key) (isoformat now),c.sent ++ [⟨key,.firing,"[Protek] " ++ spoken key,detail⟩]⟩
    else c
  | none =>
    if alertedAt.isSome then
      ⟨c.settings.set (stateKey key) "",c.sent ++ [⟨key,.resolved,"[Protek] " ++ spoken key ++ " — recovered",
        "Recovered: " ++ spoken key ++ " is no longer a problem."⟩]⟩
    else c

/-- The renag period in seconds. -/
def renagSeconds (T : CharTable) (settings : Settings) : PyFloat := (hours T settings "hygiene.renag_h" DEFAULT_RENAG_H).scale 3600

/-- The loop over the messages, on the findings that are current. -/
def hygieneLoop (T : CharTable) (settings : Settings) (now : Instant) (current : String → Option String) : HygieneCall :=
  hygieneKeys.foldl (HygieneCall.turn now (renagSeconds T settings) current) ⟨settings,[]⟩

/-- `check_and_alert` -/
def checkHygiene (T : CharTable) (settings : Settings) (now : Instant) : HygieneCall :=
  hygieneLoop T settings now (findings T settings now)

/-! ## Runs -/

inductive HygieneAction
  | check (now : Instant) (current : String → Option String)
  /-- Whatever else is written: not the renag period and the states of the findings. -/
  | others (now : Instant)

def HygieneAction.now : HygieneAction → Instant
  | .check now _ => now
  | .others now => now

/-- The clock is that of the last action. -/
structure HygieneWorld where
  settings : Settings
  clock : Instant

/-- The times do not decrease. -/
def HygieneStep (T : CharTable) (w : HygieneWorld) (a : HygieneAction) (w' : HygieneWorld) : Prop :=
  w.clock ≤ a.now ∧ w'.clock = a.now ∧ match a with
    | .check now current => now < endOfTime ∧ w'.settings = (hygieneLoop T w.settings now current).settings
    | .others _ => ∀ k ∈ "hygiene.renag_h" :: hygieneKeys.map stateKey, w'.settings k = w.settings k

abbrev HygieneMove := Transition HygieneWorld HygieneAction

def hygieneEdgesOf (key : String) (sent : List HygieneAlert) : List Edge :=
  (sent.filter (fun n => n.key = key)).map HygieneAlert.edge

/-- What one step announces of a finding. -/
def hygieneEdgesAt (T : CharTable) (key : String) (t : HygieneMove) : List Edge :=
  match t.label with
  | .check now current => hygieneEdgesOf key (hygieneLoop T t.before.settings now current).sent
  | .others _ => []

/-- A check, and the finding is current. -/
def Present (key : String) (t : HygieneMove) : Prop := ∃ now current, t.label = .check now current ∧ (current key).isSome

/-- A check, and the finding is not current. -/
def Absent (key : String) (t : HygieneMove) : Prop := ∃ now current, t.label = .check now current ∧ current key = none

/-- Two alerts with nothing announced in between are the period apart. -/
def Spaced (T : CharTable) (renag : PyFloat) (key : String) (ts : List HygieneMove) : Prop :=
  ∀ front t mid u back, ts = front ++ t :: (mid ++ u :: back) → .firing ∈ hygieneEdgesAt T key t →
    .firing ∈ hygieneEdgesAt T key u → (∀ v ∈ mid, hygieneEdgesAt T key v = []) →
      PyFloat.le renag (secondsSince u.label.now t.label.now) = true

/-- A finding that is current is announced, or was announced less than the period before. -/
def Announced (T : CharTable) (renag : PyFloat) (key : String) (ts : List HygieneMove) : Prop :=
  ∀ front t back, ts = front ++ t :: back → Present key t → .firing ∈ hygieneEdgesAt T key t ∨
    ∃ u ∈ front, .firing ∈ hygieneEdgesAt T key u ∧ u.label.now ≤ t.label.now ∧
      PyFloat.lt (secondsSince t.label.now u.label.now) renag = true

/-- Between one period of presence and the next, one recovery is sent. -/
def RecoveredOnce (T : CharTable) (key : String) (ts : List HygieneMove) : Prop :=
  ∀ front p mid q back, ts = front ++ p :: (mid ++ q :: back) → Present key p → Present key q →
    (∃ v ∈ mid, Absent key v) → (∀ v ∈ mid, ¬ Present key v) → mid.flatMap (hygieneEdgesAt T key) = [.resolved]

/-! ## One finding in a check -/

def alertedAt (settings : Settings) (key : String) : Option ℤ := parseStored (settings (stateKey key))

/-- What a check does to the time of a finding, next to what it announces. -/
inductive FindingMove (now : Instant) (renag : PyFloat) : Bool → Option ℤ → Option ℤ → List Edge → Prop
  | alerted (a : Option ℤ) (h : ∀ t ∈ a, PyFloat.le renag (secondsSince now t) = true) : FindingMove now renag true a (some now) [.firing]
  | quiet (t : ℤ) (h : PyFloat.le renag (secondsSince now t) = false) : FindingMove now renag true (some t) (some t) []
  | recovered (t : ℤ) : FindingMove now renag false (some t) none [.resolved]
  | idle : FindingMove now renag false none none []

theorem parseStored_isoformat {t : Instant} (h : t < endOfTime) : parseStored (some (isoformat t)) = some (t : ℤ) := by
  have hne := isoformat_ne_empty t
  rw [parseStored, orElse_some hne, if_neg hne, zuluToOffset_isoformat, fromisoformat_isoformat h]
  exact congrArg some (sub_zero (t : ℤ))

theorem stateKeys_apart : (∀ a ∈ hygieneKeys, ∀ b ∈ hygieneKeys, a ≠ b → stateKey a ≠ stateKey b) ∧
    (∀ a ∈ hygieneKeys, "hygiene.renag_h" ≠ stateKey a) ∧ hygieneKeys.Nodup := by
  decide +kernel

section
variable {T : CharTable} {now : Instant} {renag : PyFloat} {current : String → Option String} {key k : String}

theorem hygieneTurn_settings (c : HygieneCall) (h : k ≠ stateKey key) :
    (c.turn now renag current key).settings k = c.settings k := by
  unfold HygieneCall.turn
  dsimp only
  split
  · split
    · exact Settings.set_of_ne h
    · rfl
  · split
    · exact Settings.set_of_ne h
    · rfl

theorem hygieneTurn_sent (c : HygieneCall) (h : k ≠ key) :
    hygieneEdgesOf key (c.turn now renag current k).sent = hygieneEdgesOf key c.sent := by
  have hother : ∀ n : HygieneAlert, n.key = k → hygieneEdgesOf key (c.sent ++ [n]) = hygieneEdgesOf key c.sent := by
    intro n hn
    unfold hygieneEdgesOf
    rw [List.filter_append, List.filter_cons_of_neg (by simpa [hn] using h)]
    simp
  unfold HygieneCall.turn
  dsimp only
  split
  · split
    · exact hother _ rfl
    · rfl
  · split
    · exact hother _ rfl
    · rfl

theorem hygieneEdgesOf_concat {sent : List HygieneAlert} {n : HygieneAlert} (h : n.key = key) :
    hygieneEdgesOf key (sent ++ [n]) = hygieneEdgesOf key sent ++ [n.edge] := by
  unfold hygieneEdgesOf
  rw [List.filter_append, List.map_append, List.filter_cons_of_pos (by simpa using h)]
  rfl

theorem own_hygieneTurn (c : HygieneCall) (hnow : now < endOfTime) : ∃ edges,
    FindingMove now renag (current key).isSome (alertedAt c.settings key) (alertedAt (c.turn now renag current key).settings key) edges ∧
      hygieneEdgesOf key (c.turn now renag current key).sent = hygieneEdgesOf key c.sent ++ edges := by
  unfold HygieneCall.turn
  cases hcurrent : current key with
  | some detail =>
    dsimp only [alertedAt]
    split
    · rename_i hdue
      refine ⟨[.firing],?_,hygieneEdgesOf_concat rfl⟩
      dsimp only
      rw [Settings.set_self, parseStored_isoformat hnow]
      refine .alerted _ (fun t ht => ?_)
      rw [Option.mem_def.mp ht] at hdue
      exact hdue
    · rename_i hdue
      refine ⟨[],?_,(List.append_nil _).symm⟩
      cases halerted : parseStored (c.settings (stateKey key)) with
      | none =>
        rw [halerted] at hdue
        exact absurd rfl hdue
      | some t =>
        rw [halerted] at hdue
        exact .quiet t (Bool.eq_false_iff.mpr hdue)
  | none =>
    dsimp only [alertedAt]
    cases halerted : parseStored (c.settings (stateKey key)) with
    | some t =>
      rw [if_pos Option.isSome_some]
      refine ⟨[.resolved],?_,hygieneEdgesOf_concat rfl⟩
      dsimp only
      rw [Settings.set_self]
      exact .recovered t
    | none =>
      rw [if_neg (by simp), halerted]
      exact ⟨[],.idle,(List.append_nil _).symm⟩

/-- A finding has one round in a check. -/
theorem hygieneLoop_move (hkey : key ∈ hygieneKeys) (settings : Settings) (hnow : now < endOfTime) :
    FindingMove now (renagSeconds T settings) (current key).isSome (alertedAt settings key)
      (alertedAt (hygieneLoop T settings now current).settings key) (hygieneEdgesOf key (hygieneLoop T settings now current).sent) := by
  obtain ⟨c,-,hbefore,hafter⟩ := @foldl_own _ _ _ (HygieneCall.turn now (renagSeconds T settings) current) hygieneKeys key hkey
    stateKeys_apart.2.2 (fun _ => True) (fun _ _ _ _ => trivial)
    (fun c : HygieneCall => (alertedAt c.settings key,hygieneEdgesOf key c.sent))
    (fun c k hk hne => Prod.ext
      (congrArg parseStored (hygieneTurn_settings c (stateKeys_apart.1 key hkey k hk hne.symm))) (hygieneTurn_sent c hne))
    ⟨settings,[]⟩ trivial
  obtain ⟨hstate,hsent⟩ := Prod.mk.inj hbefore
  obtain ⟨hstate',hsent'⟩ := Prod.mk.inj hafter
  obtain ⟨edges,hmove,hedges⟩ := @own_hygieneTurn now (renagSeconds T settings) current key c hnow
  unfold hygieneLoop
  rw [hstate', hsent', hedges, hsent, ← hstate]
  exact hmove

theorem hygieneLoop_renag (settings : Settings) :
    (hygieneLoop T settings now current).settings "hygiene.renag_h" = settings "hygiene.renag_h" :=
  foldl_keeps (fun c : HygieneCall => c.settings "hygiene.renag_h") (fun c k hk => hygieneTurn_settings c (stateKeys_apart.2.1 k hk))

end

/-! ## Steps -/

section
variable {T : CharTable} {renag : PyFloat} {key : String} {init w : HygieneWorld} {ts : List HygieneMove}

/-- What a step does to a finding. -/
inductive HygieneChange (T : CharTable) (key : String) (t : HygieneMove) : Prop
  | kept (hunchecked : ∀ now current, t.label ≠ .check now current)
      (hstate : alertedAt t.after.settings key = alertedAt t.before.settings key) (hedges : hygieneEdgesAt T key t = [])
  | checked (now : Instant) (current : String → Option String) (hlabel : t.label = .check now current)
      (hmove : FindingMove now (renagSeconds T t.before.settings) (current key).isSome (alertedAt t.before.settings key)
        (alertedAt t.after.settings key) (hygieneEdgesAt T key t))

theorem hygieneChange_of_step (hkey : key ∈ hygieneKeys) {t : HygieneMove} (hs : HygieneStep T t.before t.label t.after) :
    HygieneChange T key t := by
  obtain ⟨before,label,after⟩ := t
  obtain ⟨-,-,hs⟩ := hs
  cases label with
  | check now current =>
    obtain ⟨hnow,hafter⟩ : now < endOfTime ∧ after.settings = (hygieneLoop T before.settings now current).settings := hs
    refine .checked now current rfl ?_
    change FindingMove now _ _ _ (alertedAt after.settings key) _
    rw [hafter]
    exact hygieneLoop_move hkey before.settings hnow
  | others now =>
    have hafter : ∀ k ∈ "hygiene.renag_h" :: hygieneKeys.map stateKey, after.settings k = before.settings k := hs
    exact .kept (by simp) (congrArg parseStored (hafter _ (List.mem_cons_of_mem _ (List.mem_map_of_mem hkey)))) rfl

theorem renag_step {t : HygieneMove} (hs : HygieneStep T t.before t.label t.after) :
    renagSeconds T t.after.settings = renagSeconds T t.before.settings := by
  have hcongr : ∀ s s' : Settings, s' "hygiene.renag_h" = s "hygiene.renag_h" → renagSeconds T s' = renagSeconds T s := by
    intro s s' h
    unfold renagSeconds hours Settings.text
    rw [h]
  obtain ⟨before,label,after⟩ := t
  obtain ⟨-,-,hs⟩ := hs
  cases label with
  | check now current =>
    obtain ⟨-,hafter⟩ : now < endOfTime ∧ after.settings = (hygieneLoop T before.settings now current).settings := hs
    exact hcongr _ _ (by rw [hafter, hygieneLoop_renag])
  | others now =>
    have hafter : ∀ k ∈ "hygiene.renag_h" :: hygieneKeys.map stateKey, after.settings k = before.settings k := hs
    exact hcongr _ _ (hafter _ List.mem_cons_self)

theorem renag_const (h : Trace (HygieneStep T) init ts w) :
    ∀ t ∈ ts, renagSeconds T t.before.settings = renagSeconds T init.settings :=
  fun t ht => ((h.always (I := fun w => renagSeconds T w.settings = renagSeconds T init.settings) rfl
    (fun _ hs hb => (renag_step hs).trans hb)).2 t ht).1

theorem present_iff {t : HygieneMove} {now : Instant} {current : String → Option String} (hlabel : t.label = .check now current) :
    Present key t ↔ (current key).isSome = true := by
  constructor
  · rintro ⟨now',current',hlabel',h⟩
    obtain ⟨-,rfl⟩ := HygieneAction.check.inj (hlabel.symm.trans hlabel')
    exact h
  · exact fun h => ⟨now,current,hlabel,h⟩

/-- A step that announces nothing leaves the time of a finding alone. -/
theorem alertedAt_of_silent (hkey : key ∈ hygieneKeys) {t : HygieneMove} (hs : HygieneStep T t.before t.label t.after)
    (h : hygieneEdgesAt T key t = []) : alertedAt t.after.settings key = alertedAt t.before.settings key := by
  cases hygieneChange_of_step hkey hs with
  | kept _ hstate => exact hstate
  | checked now current hlabel hmove =>
    rw [h] at hmove
    generalize (current key).isSome = present at hmove
    generalize alertedAt t.before.settings key = a at hmove
    generalize alertedAt t.after.settings key = b at hmove
    cases hmove with
    | quiet => rfl
    | idle => rfl

/-- An alert is due, and its time is the one that is kept. -/
theorem alert_of_firing (hkey : key ∈ hygieneKeys) {t : HygieneMove} (hs : HygieneStep T t.before t.label t.after)
    (h : .firing ∈ hygieneEdgesAt T key t) : alertedAt t.after.settings key = some (t.label.now : ℤ) ∧
      ∀ a ∈ alertedAt t.before.settings key, PyFloat.le (renagSeconds T t.before.settings) (secondsSince t.label.now a) = true := by
  cases hygieneChange_of_step hkey hs with
  | kept _ _ hedges =>
    rw [hedges] at h
    exact absurd h List.not_mem_nil
  | checked now current hlabel hmove =>
    rw [show t.label.now = now by rw [hlabel]; rfl]
    generalize hygieneEdgesAt T key t = edges at hmove h
    generalize (current key).isSome = present at hmove
    generalize alertedAt t.before.settings key = a at hmove
    generalize alertedAt t.after.settings key = b at hmove
    cases hmove with
    | alerted _ hdue => exact ⟨rfl,hdue⟩
    | quiet => exact absurd h List.not_mem_nil
    | recovered => cases List.mem_singleton.mp h
    | idle => exact absurd h List.not_mem_nil

/-! ## Alerts -/

theorem alertedAt_of_silent_run (hkey : key ∈ hygieneKeys) (h : Trace (HygieneStep T) init ts w)
    (hsilent : ∀ v ∈ ts, hygieneEdgesAt T key v = []) : alertedAt w.settings key = alertedAt init.settings key :=
  (h.invariant (I := fun w => alertedAt w.settings key = alertedAt init.settings key)
    (C := fun v => hygieneEdgesAt T key v = []) rfl (fun _ hs hv hb => (alertedAt_of_silent hkey hs hv).trans hb) hsilent).1

theorem alerts_spaced (hkey : key ∈ hygieneKeys) (h : Trace (HygieneStep T) init ts w) :
    Spaced T (renagSeconds T init.settings) key ts := by
  rintro front t mid u back rfl ht hu hmid
  have hrest := h.drop
  obtain ⟨hafter,-⟩ := alert_of_firing hkey (h.mem_step t (by simp)) ht
  obtain ⟨-,hdue⟩ := alert_of_firing hkey (h.mem_step u (by simp)) hu
  rw [alertedAt_of_silent_run hkey hrest.take hmid, hafter, renag_const h u (by simp)] at hdue
  exact hdue _ rfl

/-- The time of a finding is that of an alert in the run. -/
def Recorded (T : CharTable) (key : String) (ts : List HygieneMove) (w : HygieneWorld) : Prop :=
  ∀ a ∈ alertedAt w.settings key, ∃ u ∈ ts, .firing ∈ hygieneEdgesAt T key u ∧ a = (u.label.now : ℤ) ∧ u.label.now ≤ w.clock

theorem recorded_of_trace (hkey : key ∈ hygieneKeys) (h : Trace (HygieneStep T) init ts w)
    (h0 : alertedAt init.settings key = none) : Recorded T key ts w := by
  induction h with
  | nil =>
    intro a ha
    rw [h0] at ha
    cases ha
  | @snoc ts w w' action h hs ih =>
    intro a ha
    have hclock : w.clock ≤ w'.clock := by
      rw [hs.2.1]
      exact hs.1
    have hearlier : a ∈ alertedAt w.settings key → ∃ u ∈ ts ++ [⟨w,action,w'⟩], .firing ∈ hygieneEdgesAt T key u ∧
        a = (u.label.now : ℤ) ∧ u.label.now ≤ w'.clock := by
      intro ha
      obtain ⟨u,hu,hfired,hat,hpast⟩ := ih a ha
      exact ⟨u,List.mem_append_left _ hu,hfired,hat,hpast.trans hclock⟩
    have hchange := hygieneChange_of_step (t := ⟨w,action,w'⟩) hkey hs
    by_cases hfired : .firing ∈ hygieneEdgesAt T key ⟨w,action,w'⟩
    · have hafter := (alert_of_firing (t := ⟨w,action,w'⟩) hkey hs hfired).1
      refine ⟨⟨w,action,w'⟩,by simp,hfired,?_,hs.2.1.ge⟩
      have hsome : some a = some (action.now : ℤ) := (Option.mem_def.mp ha).symm.trans hafter
      exact Option.some_inj.mp hsome
    · cases hchange with
      | kept _ hstate => exact hearlier (hstate ▸ ha)
      | checked now current hlabel hmove =>
        generalize hygieneEdgesAt T key ⟨w,action,w'⟩ = edges at hmove hfired
        generalize (current key).isSome = present at hmove
        generalize hx : alertedAt w.settings key = x at hmove
        generalize hy : alertedAt w'.settings key = y at hmove
        rw [hy] at ha
        cases hmove with
        | alerted => exact absurd List.mem_cons_self hfired
        | quiet => exact hearlier (hx ▸ ha)
        | recovered => cases ha
        | idle => cases ha

/-- The period is a number of seconds, or infinite. -/
theorem renagSeconds_number (settings : Settings) :
    (∃ q, renagSeconds T settings = .finite q) ∨ renagSeconds T settings = .inf false := by
  have hhours : (∃ q, hours T settings "hygiene.renag_h" DEFAULT_RENAG_H = .finite q) ∨
      hours T settings "hygiene.renag_h" DEFAULT_RENAG_H = .inf false := by
    unfold hours
    split
    · exact PyFloat.max_number 1 _
    · split
      · exact PyFloat.max_number 1 _
      · exact Or.inl ⟨_,rfl⟩
  unfold renagSeconds
  rcases hhours with ⟨q,hq⟩ | hinf
  · exact Or.inl ⟨q * 3600,by rw [hq]; rfl⟩
  · exact Or.inr (by rw [hinf]; rfl)

theorem lt_renag_of_not_le {settings : Settings} {q : ℚ} (h : PyFloat.le (renagSeconds T settings) (.finite q) = false) :
    PyFloat.lt (.finite q) (renagSeconds T settings) = true := by
  rcases @renagSeconds_number T settings with ⟨r,hr⟩ | hinf
  · rw [hr, Bool.eq_false_iff, Ne, PyFloat.le_finite, not_le] at h
    rw [hr, PyFloat.lt_finite]
    exact h
  · rw [hinf]
    rfl

theorem findings_announced (hkey : key ∈ hygieneKeys) (h : Trace (HygieneStep T) init ts w)
    (h0 : alertedAt init.settings key = none) : Announced T (renagSeconds T init.settings) key ts := by
  rintro front t back rfl hpresent
  have hs := h.mem_step t (by simp)
  cases hygieneChange_of_step hkey hs with
  | kept hunchecked =>
    obtain ⟨now,current,hlabel,-⟩ := hpresent
    exact absurd hlabel (hunchecked now current)
  | checked now current hlabel hmove =>
    rw [(present_iff hlabel).mp hpresent] at hmove
    have hrecorded := recorded_of_trace hkey h.take h0
    generalize hygieneEdgesAt T key t = edges at hmove ⊢
    generalize hx : alertedAt t.before.settings key = x at hmove
    generalize alertedAt t.after.settings key = y at hmove
    cases hmove with
    | alerted => exact Or.inl List.mem_cons_self
    | quiet a hquiet =>
      obtain ⟨u,hu,hfired,hat,hpast⟩ := hrecorded a hx
      have hnow : t.label.now = now := by rw [hlabel]; rfl
      refine Or.inr ⟨u,hu,hfired,hpast.trans hs.1,?_⟩
      rw [hnow, ← hat, ← renag_const h t (by simp)]
      exact lt_renag_of_not_le hquiet

/-! ## Recoveries -/

theorem alertedAt_of_present (hkey : key ∈ hygieneKeys) {t : HygieneMove} (hs : HygieneStep T t.before t.label t.after)
    (hpresent : Present key t) : (alertedAt t.after.settings key).isSome = true := by
  cases hygieneChange_of_step hkey hs with
  | kept hunchecked =>
    obtain ⟨now,current,hlabel,-⟩ := hpresent
    exact absurd hlabel (hunchecked now current)
  | checked now current hlabel hmove =>
    rw [(present_iff hlabel).mp hpresent] at hmove
    generalize hygieneEdgesAt T key t = edges at hmove
    generalize alertedAt t.before.settings key = x at hmove
    generalize alertedAt t.after.settings key = y at hmove
    cases hmove <;> rfl

/-- A step at which the finding is not current sends a recovery if the finding was announced. -/
theorem absent_step (hkey : key ∈ hygieneKeys) {t : HygieneMove} (hs : HygieneStep T t.before t.label t.after)
    (hpresent : ¬ Present key t) :
    (¬ Absent key t ∧ hygieneEdgesAt T key t = [] ∧ alertedAt t.after.settings key = alertedAt t.before.settings key) ∨
      (Absent key t ∧ alertedAt t.after.settings key = none ∧
        hygieneEdgesAt T key t = if (alertedAt t.before.settings key).isSome then [.resolved] else []) := by
  cases hygieneChange_of_step hkey hs with
  | kept hunchecked hstate hedges =>
    refine Or.inl ⟨?_,hedges,hstate⟩
    rintro ⟨now,current,hlabel,-⟩
    exact hunchecked now current hlabel
  | checked now current hlabel hmove =>
    have hnone : current key = none := by
      rw [present_iff hlabel, Bool.not_eq_true, Option.isSome_eq_false_iff] at hpresent
      exact Option.isNone_iff_eq_none.mp hpresent
    rw [hnone] at hmove
    refine Or.inr ⟨⟨now,current,hlabel,hnone⟩,?_⟩
    generalize hygieneEdgesAt T key t = edges at hmove ⊢
    generalize alertedAt t.before.settings key = x at hmove ⊢
    generalize alertedAt t.after.settings key = y at hmove ⊢
    cases hmove <;> exact ⟨rfl,rfl⟩

/-- In a stretch without presence the first check sends the recovery, and no later one does. -/
theorem recovery_of_absence (hkey : key ∈ hygieneKeys) (h : Trace (HygieneStep T) init ts w)
    (hup : (alertedAt init.settings key).isSome = true) (habsent : ∀ v ∈ ts, ¬ Present key v) :
    ((∀ v ∈ ts, ¬ Absent key v) ∧ ts.flatMap (hygieneEdgesAt T key) = [] ∧ (alertedAt w.settings key).isSome = true) ∨
      ((∃ v ∈ ts, Absent key v) ∧ ts.flatMap (hygieneEdgesAt T key) = [.resolved] ∧ alertedAt w.settings key = none) := by
  induction h with
  | nil => exact Or.inl ⟨by simp,rfl,hup⟩
  | @snoc ts w w' action h hs ih =>
    have hlast := absent_step (t := ⟨w,action,w'⟩) hkey hs (habsent _ (by simp))
    rw [List.flatMap_append, List.flatMap_singleton]
    rcases ih (fun v hv => habsent v (List.mem_append_left _ hv)) with ⟨hnone,hedges,hsome⟩ | ⟨⟨v,hv,hgone⟩,hedges,hcleared⟩
    · rcases hlast with ⟨hcheck,hsilent,hkept⟩ | ⟨hcheck,hcleared,hsent⟩
      · refine Or.inl ⟨fun v hv => ?_,by rw [hedges, hsilent, List.nil_append],?_⟩
        · rcases List.mem_append.mp hv with hv | hv
          · exact hnone v hv
          · rw [List.mem_singleton.mp hv]
            exact hcheck
        · exact (congrArg Option.isSome hkept).trans hsome
      · refine Or.inr ⟨⟨_,by simp,hcheck⟩,?_,hcleared⟩
        have hsome' : (alertedAt (Transition.mk w action w').before.settings key).isSome = true := hsome
        rw [hedges, hsent, if_pos hsome', List.nil_append]
    · have hcleared' : alertedAt (Transition.mk w action w').before.settings key = none := hcleared
      rcases hlast with ⟨-,hsilent,hkept⟩ | ⟨-,hafter,hsent⟩
      · exact Or.inr ⟨⟨v,List.mem_append_left _ hv,hgone⟩,by rw [hedges, hsilent, List.append_nil],hkept.trans hcleared'⟩
      · refine Or.inr ⟨⟨v,List.mem_append_left _ hv,hgone⟩,?_,hafter⟩
        rw [hedges, hsent, hcleared', if_neg (by simp), List.append_nil]

theorem recovered_once (hkey : key ∈ hygieneKeys) (h : Trace (HygieneStep T) init ts w) : RecoveredOnce T key ts := by
  rintro front p mid q back rfl hp - ⟨v,hv,hgone⟩ hmid
  have hup := alertedAt_of_present hkey (h.mem_step p (by simp)) hp
  rcases recovery_of_absence hkey h.drop.take hup hmid with ⟨hnone,-⟩ | ⟨-,hedges,-⟩
  · exact absurd hgone (hnone v hv)
  · exact hedges

/-- Findings are announced at the rate of the renag period, and recover once. -/
theorem findings_nag_and_recover (hkey : key ∈ hygieneKeys) (h : Trace (HygieneStep T) init ts w)
    (h0 : alertedAt init.settings key = none) : Spaced T (renagSeconds T init.settings) key ts ∧
      Announced T (renagSeconds T init.settings) key ts ∧ RecoveredOnce T key ts :=
  ⟨alerts_spaced hkey h,findings_announced hkey h h0,recovered_once hkey h⟩

end

/-! ## Runs on fixed inputs -/

/-- The step of an action. -/
def HygieneWorld.next (T : CharTable) (w : HygieneWorld) (a : HygieneAction) : HygieneWorld :=
  match a with
  | .check now current => ⟨(hygieneLoop T w.settings now current).settings,now⟩
  | .others now => ⟨w.settings,now⟩

theorem HygieneWorld.next_step (T : CharTable) {w : HygieneWorld} {a : HygieneAction} (hmono : w.clock ≤ a.now)
    (hnow : a.now < endOfTime) : HygieneStep T w a (w.next T a) := by
  cases a with
  | check => exact ⟨hmono,rfl,hnow,rfl⟩
  | others => exact ⟨hmono,rfl,fun _ _ => rfl⟩

/-- A check of the code is a step of a run. -/
theorem checkHygiene_step (T : CharTable) (w : HygieneWorld) {now : Instant} (hmono : w.clock ≤ now) (hnow : now < endOfTime) :
    HygieneStep T w (.check now (findings T w.settings now)) ⟨(checkHygiene T w.settings now).settings,now⟩ :=
  ⟨hmono,rfl,hnow,rfl⟩

def freshHygiene : HygieneWorld := ⟨fun _ => none,0⟩

def onlyRetention : String → Option String := fun key => if key = "retention_disabled" then some retentionDisabled else none

/-- Retention is off for a day and an hour, and again two hours later. -/
def retentionRun : List HygieneAction :=
  [.check (1 * hour) onlyRetention,.check (2 * hour) onlyRetention,.check (25 * hour) onlyRetention,.check (26 * hour) (fun _ => none),
    .check (27 * hour) (fun _ => none),.check (28 * hour) onlyRetention]

theorem findings_nag_and_recover_example :
    (walk (HygieneWorld.next CharTable.ascii) freshHygiene retentionRun).map (hygieneEdgesAt CharTable.ascii "retention_disabled") =
      [[.firing],[],[.firing],[.resolved],[],[.firing]] ∧
    Announced CharTable.ascii (renagSeconds CharTable.ascii freshHygiene.settings) "retention_disabled"
      (walk (HygieneWorld.next CharTable.ascii) freshHygiene retentionRun) := by
  have hrun : Trace (HygieneStep CharTable.ascii) freshHygiene (walk (HygieneWorld.next CharTable.ascii) freshHygiene retentionRun)
      (retentionRun.foldl (HygieneWorld.next CharTable.ascii) freshHygiene) := by
    refine trace_of_walk (fun t ht => ?_)
    simp only [retentionRun, walk, List.mem_cons, List.not_mem_nil, or_false] at ht
    rcases ht with rfl | rfl | rfl | rfl | rfl | rfl <;> exact HygieneWorld.next_step _ (by decide +kernel) (by decide +kernel)
  exact ⟨by decide +kernel,(findings_nag_and_recover (by decide +kernel) hrun rfl).2.1⟩

end Protek.Alerts
