import Protek.Foundation.FromIso
import Protek.Foundation.Trace
import Protek.Store.Settings

/-! # Scheduled backups

A call makes a monthly backup if one is due, or else a daily one. The time of the last daily
backup is also written after a monthly run, however the run went.
-/
namespace Protek.Backup
open Foundation Foundation.Clock Foundation.PyText Protek.Store

/-! ## The call -/

inductive Kind
  | daily
  | monthly
  | manual
  | test
  deriving DecidableEq

/-- How `run_backup` ends: with a bundle stored, with a failure it has recorded, or with an exception of its own. -/
inductive Outcome
  | ok
  | failed
  | raised
  deriving DecidableEq

/-- A row of `backup_runs`, with the clock when its run was over. -/
structure BackupRun where
  kind : Kind
  completedAt : Instant
  ok : Bool
  deriving DecidableEq

structure BackupWorld where
  settings : Settings
  runs : List BackupRun
  clock : Instant

/-- The readings of the clock in a call, and what becomes of its backup and of its restore test. -/
structure ScheduledCall where
  now : Instant
  bundledAt : Instant
  recordedAt : Instant
  testedAt : Instant
  outcome : Outcome
  testOk : Bool

def lastDailyAt : String := "backup.last_daily_at"

def lastMonthlyAt : String := "backup.last_monthly_at"

/-- The instant that a setting stores; a naive time is none. -/
def storedInstant (text : String) : Option ℤ := (fromisoformat (zuluToOffset text)).bind DateTime.aware

/-- `now - d >= period`, and due where that raises. -/
def dueAfter (text : String) (now : Instant) (period : ℕ) : Bool :=
  match storedInstant text with
  | some d => period ≤ now - d
  | none => true

def dailyDue (settings : Settings) (now : Instant) : Bool :=
  if settings.text lastDailyAt = "" then true else dueAfter (settings.text lastDailyAt) now (24 * hour)

/-- The first monthly backup is made on the first day of a month. -/
def monthlyDue (settings : Settings) (now : Instant) : Bool :=
  if settings.text lastMonthlyAt = "" then (civil (now / day)).2.2 = 1 else dueAfter (settings.text lastMonthlyAt) now (28 * day)

/-- The kind of the backup that a call runs. -/
def dueKind (settings : Settings) (now : Instant) : Option Kind :=
  if monthlyDue settings now then some .monthly else if dailyDue settings now then some .daily else none

def runBackup (w : BackupWorld) (kind : Kind) (c : ScheduledCall) : BackupWorld :=
  match c.outcome with
  | .ok =>
    { w with
      settings := match kind with
        | .daily => w.settings.set lastDailyAt (isoformat c.bundledAt)
        | .monthly => w.settings.set lastMonthlyAt (isoformat c.bundledAt)
        | _ => w.settings
      runs := w.runs ++ [⟨kind,c.recordedAt,true⟩] }
  | _ => { w with runs := w.runs ++ [⟨kind,c.recordedAt,false⟩] }

/-- The backup of a call. -/
def backUp (w : BackupWorld) (c : ScheduledCall) : BackupWorld :=
  match dueKind w.settings c.now with
  | some .monthly =>
    let w' := runBackup w .monthly c
    if c.outcome = .raised then w' else { w' with settings := w'.settings.set lastDailyAt (isoformat c.recordedAt) }
  | some kind => runBackup w kind c
  | none => w

def testDue (w : BackupWorld) (now : Instant) : Bool :=
  if w.settings.text "backup.last_test_at" = "" then w.runs.any (fun r => r.ok && r.kind ≠ .test)
  else dueAfter (w.settings.text "backup.last_test_at") now (7 * day)

def restoreTest (w : BackupWorld) (c : ScheduledCall) : BackupWorld :=
  { w with
    settings := (w.settings.set "backup.last_test_at" (isoformat c.testedAt)).set "backup.last_test_ok" (if c.testOk then "1" else "0")
    runs := w.runs ++ [⟨.test,c.testedAt,c.testOk⟩] }

def maybeRunScheduled (w : BackupWorld) (c : ScheduledCall) : BackupWorld :=
  if w.settings.flag "backup.enabled" then
    let w' := backUp w c
    if (dueKind w.settings c.now).isSome ∧ c.outcome = .raised then w'
    else if testDue w' c.now then restoreTest w' c
    else w'
  else w

/-! ## Runs -/

def isScheduled (r : BackupRun) : Bool := r.kind = .daily || r.kind = .monthly

/-- When the last daily or monthly backup succeeded. -/
def lastSuccess (runs : List BackupRun) : Option Instant :=
  ((runs.filter (fun r => isScheduled r && r.ok)).getLast?).map BackupRun.completedAt

inductive BackupAction
  | call (c : ScheduledCall)
  /-- Manual backups and whatever else is written: not the switch, the time of the last daily and the scheduled runs. -/
  | others (now : Instant)

/-- Times do not decrease. -/
def BackupStep (w : BackupWorld) (a : BackupAction) (w' : BackupWorld) : Prop :=
  match a with
  | .call c => w.clock ≤ c.now ∧ c.now ≤ c.bundledAt ∧ c.bundledAt ≤ c.recordedAt ∧ c.recordedAt ≤ c.testedAt ∧ c.testedAt < endOfTime ∧
      w'.clock = c.testedAt ∧ w'.settings = (maybeRunScheduled w c).settings ∧ w'.runs = (maybeRunScheduled w c).runs
  | .others now => w.clock ≤ now ∧ w'.clock = now ∧ (∀ k ∈ ["backup.enabled",lastDailyAt], w'.settings k = w.settings k) ∧
      w'.runs.filter isScheduled = w.runs.filter isScheduled

abbrev BackupMove := Transition BackupWorld BackupAction

/-- A call a day after the last success, or before the first one, makes a backup. -/
def AttemptsWhenDue (t : BackupMove) : Prop :=
  ∀ c, t.label = .call c → (∀ s ∈ lastSuccess t.before.runs, s + 24 * hour ≤ c.now) →
    ∃ r, t.after.runs.filter isScheduled = t.before.runs.filter isScheduled ++ [r]

/-- The time of the last daily backup is not later than the last success. -/
def Honest (w : BackupWorld) : Prop :=
  ∀ d, storedInstant (w.settings.text lastDailyAt) = some d → ∃ s, lastSuccess w.runs = some s ∧ d ≤ (s : ℤ)

/-- No monthly run fails. -/
def MonthlyKept (t : BackupMove) : Prop :=
  ∀ c, t.label = .call c → monthlyDue t.before.settings c.now = true → c.outcome ≠ .failed

/-! ## The parts of a call -/

section
variable {w : BackupWorld} {c : ScheduledCall}

theorem storedInstant_isoformat {t : Instant} (h : t < endOfTime) : storedInstant (isoformat t) = some (t : ℤ) := by
  rw [storedInstant, zuluToOffset_isoformat, fromisoformat_isoformat h]
  exact congrArg some (sub_zero (t : ℤ))

theorem lastSuccess_congr {runs runs' : List BackupRun} (h : runs'.filter isScheduled = runs.filter isScheduled) :
    lastSuccess runs' = lastSuccess runs := by
  have hparts : ∀ l : List BackupRun, l.filter (fun r => isScheduled r && r.ok) = (l.filter isScheduled).filter BackupRun.ok := by
    intro l
    rw [List.filter_filter]
    exact List.filter_congr (fun r _ => Bool.and_comm ..)
  rw [lastSuccess, lastSuccess, hparts, hparts, h]

theorem lastSuccess_failed {runs : List BackupRun} {r : BackupRun} (h : r.ok = false) : lastSuccess (runs ++ [r]) = lastSuccess runs := by
  rw [lastSuccess, List.filter_append, List.filter_cons_of_neg (by simp [h]), List.filter_nil, List.append_nil]
  rfl

theorem lastSuccess_ok {runs : List BackupRun} {r : BackupRun} (hkind : isScheduled r = true) (h : r.ok = true) :
    lastSuccess (runs ++ [r]) = some r.completedAt := by
  rw [lastSuccess, List.filter_append, List.filter_cons_of_pos (by simp [hkind, h]), List.filter_nil, List.getLast?_concat]
  rfl

theorem dueKind_cases (settings : Settings) (now : Instant) : dueKind settings now = none ∨ dueKind settings now = some .daily ∨
    (dueKind settings now = some .monthly ∧ monthlyDue settings now = true) := by
  unfold dueKind
  split
  · rename_i h
    exact Or.inr (Or.inr ⟨rfl,h⟩)
  · split
    · exact Or.inr (Or.inl rfl)
    · exact Or.inl rfl

theorem runs_runBackup (kind : Kind) : ∃ ok, (runBackup w kind c).runs = w.runs ++ [⟨kind,c.recordedAt,ok⟩] := by
  unfold runBackup
  split
  · exact ⟨true,rfl⟩
  · exact ⟨false,rfl⟩

/-- A backup that is due makes one scheduled run. -/
theorem runs_backUp {kind : Kind} (h : dueKind w.settings c.now = some kind) :
    ∃ r, (backUp w c).runs.filter isScheduled = w.runs.filter isScheduled ++ [r] := by
  have hadds : ∀ k : Kind, ∀ ok, isScheduled ⟨k,c.recordedAt,ok⟩ = true → ∀ runs, runs = w.runs ++ [⟨k,c.recordedAt,ok⟩] →
      ∃ r, runs.filter isScheduled = w.runs.filter isScheduled ++ [r] := by
    rintro k ok hk runs rfl
    exact ⟨_,by rw [List.filter_append, List.filter_cons_of_pos hk, List.filter_nil]⟩
  unfold backUp
  rcases dueKind_cases w.settings c.now with hnone | hdaily | ⟨hmonthly,-⟩
  · rw [hnone] at h
    cases h
  · rw [hdaily]
    obtain ⟨ok,hruns⟩ := @runs_runBackup w c .daily
    exact hadds .daily ok rfl _ hruns
  · rw [hmonthly]
    obtain ⟨ok,hruns⟩ := @runs_runBackup w c .monthly
    dsimp only
    split
    · exact hadds .monthly ok rfl _ hruns
    · exact hadds .monthly ok rfl _ hruns

theorem runs_restoreTest : (restoreTest w c).runs.filter isScheduled = w.runs.filter isScheduled := by
  rw [restoreTest, List.filter_append, List.filter_cons_of_neg (by simp [isScheduled]), List.filter_nil, List.append_nil]

theorem backupKeys_apart : lastDailyAt ≠ "backup.last_test_at" ∧ lastDailyAt ≠ "backup.last_test_ok" ∧ lastDailyAt ≠ lastMonthlyAt ∧
    "backup.enabled" ≠ "backup.last_test_at" ∧ "backup.enabled" ≠ "backup.last_test_ok" ∧
    "backup.enabled" ≠ lastDailyAt ∧ "backup.enabled" ≠ lastMonthlyAt := by
  decide +kernel

theorem settings_restoreTest {k : String} (h : k ≠ "backup.last_test_at") (h' : k ≠ "backup.last_test_ok") :
    (restoreTest w c).settings k = w.settings k :=
  (Settings.set_of_ne h').trans (Settings.set_of_ne h)

/-- The restore test of a call touches neither the time of the last daily nor the scheduled runs. -/
theorem maybeRunScheduled_view (henabled : w.settings.flag "backup.enabled" = true) :
    (maybeRunScheduled w c).settings.text lastDailyAt = (backUp w c).settings.text lastDailyAt ∧
      (maybeRunScheduled w c).settings.flag "backup.enabled" = (backUp w c).settings.flag "backup.enabled" ∧
      (maybeRunScheduled w c).runs.filter isScheduled = (backUp w c).runs.filter isScheduled := by
  obtain ⟨hat,hok,-,hat',hok',-⟩ := backupKeys_apart
  rw [maybeRunScheduled, if_pos henabled]
  dsimp only
  split
  · exact ⟨rfl,rfl,rfl⟩
  · split
    · refine ⟨?_,?_,runs_restoreTest⟩
      · rw [Settings.text, settings_restoreTest hat hok, Settings.text]
      · rw [Settings.flag, settings_restoreTest hat' hok', Settings.flag]
    · exact ⟨rfl,rfl,rfl⟩

/-! ## The time of the last daily -/

theorem Honest.congr {w w' : BackupWorld} (h : Honest w) (htext : w'.settings.text lastDailyAt = w.settings.text lastDailyAt)
    (hruns : lastSuccess w'.runs = lastSuccess w.runs) : Honest w' := by
  intro d hd
  rw [htext] at hd
  obtain ⟨s,hs,hle⟩ := h d hd
  exact ⟨s,hruns.trans hs,hle⟩

theorem honest_of_stamp {w' : BackupWorld} {d s : Instant} (hd : d < endOfTime) (htext : w'.settings.text lastDailyAt = isoformat d)
    (hs : lastSuccess w'.runs = some s) (hle : d ≤ s) : Honest w' := by
  intro d' hd'
  rw [htext, storedInstant_isoformat hd] at hd'
  cases hd'
  exact ⟨s,hs,Int.ofNat_le.mpr hle⟩

theorem Honest.daily (h : Honest w) (hle : c.bundledAt ≤ c.recordedAt) (hbound : c.recordedAt < endOfTime) :
    Honest (runBackup w .daily c) := by
  unfold runBackup
  split
  · exact honest_of_stamp (hle.trans_lt hbound) Settings.text_set_self (lastSuccess_ok rfl rfl) hle
  · exact h.congr rfl (lastSuccess_failed rfl)

/-- A monthly run that does not fail leaves a time that is not ahead of the successes. -/
theorem Honest.monthly (h : Honest w) (hbound : c.recordedAt < endOfTime) (hkept : c.outcome ≠ .failed) :
    Honest (if c.outcome = .raised then runBackup w .monthly c
      else { runBackup w .monthly c with settings := (runBackup w .monthly c).settings.set lastDailyAt (isoformat c.recordedAt) }) := by
  split
  · rename_i hraised
    unfold runBackup
    rw [hraised]
    exact h.congr rfl (lastSuccess_failed rfl)
  · rename_i hraised
    have hok : c.outcome = .ok := by
      cases hout : c.outcome with
      | ok => rfl
      | failed => exact absurd hout hkept
      | raised => exact absurd hout hraised
    refine honest_of_stamp hbound Settings.text_set_self ?_ le_rfl
    unfold runBackup
    rw [hok]
    exact lastSuccess_ok rfl rfl

theorem Honest.backUp (h : Honest w) (hle : c.bundledAt ≤ c.recordedAt) (hbound : c.recordedAt < endOfTime)
    (hkept : monthlyDue w.settings c.now = true → c.outcome ≠ .failed) : Honest (backUp w c) := by
  unfold Backup.backUp
  rcases dueKind_cases w.settings c.now with hnone | hdaily | ⟨hmonthly,hdue⟩
  · rw [hnone]
    exact h
  · rw [hdaily]
    exact h.daily hle hbound
  · rw [hmonthly]
    exact h.monthly hbound (hkept hdue)

theorem enabled_backUp : (Backup.backUp w c).settings "backup.enabled" = w.settings "backup.enabled" := by
  obtain ⟨-,-,-,-,-,hdaily,hmonthly⟩ := backupKeys_apart
  have hrun : ∀ kind, (runBackup w kind c).settings "backup.enabled" = w.settings "backup.enabled" := by
    intro kind
    unfold runBackup
    split
    · cases kind with
      | daily => exact (Settings.set_of_ne hdaily : (w.settings.set lastDailyAt (isoformat c.bundledAt)) _ = _)
      | monthly => exact (Settings.set_of_ne hmonthly : (w.settings.set lastMonthlyAt (isoformat c.bundledAt)) _ = _)
      | manual => rfl
      | test => rfl
    · rfl
  unfold Backup.backUp
  split
  · dsimp only
    split
    · exact hrun .monthly
    · dsimp only
      rw [Settings.set_of_ne hdaily]
      exact hrun .monthly
  · exact hrun _
  · rfl

/-! ## Runs -/

theorem enabled_step {t : BackupMove} (hs : BackupStep t.before t.label t.after) (h : t.before.settings.flag "backup.enabled" = true) :
    t.after.settings.flag "backup.enabled" = true := by
  obtain ⟨before,label,after⟩ := t
  cases label with
  | call c =>
    obtain ⟨-,-,-,-,-,-,hsettings,-⟩ := hs
    change Settings.flag after.settings "backup.enabled" = true
    rw [hsettings, (maybeRunScheduled_view h).2.1, Settings.flag, enabled_backUp]
    exact h
  | others now =>
    obtain ⟨-,-,hkept,-⟩ := hs
    change Settings.flag after.settings "backup.enabled" = true
    rw [Settings.flag, hkept _ List.mem_cons_self]
    exact h

theorem honest_step {t : BackupMove} (hs : BackupStep t.before t.label t.after) (henabled : t.before.settings.flag "backup.enabled" = true)
    (h : Honest t.before) (hC : MonthlyKept t) : Honest t.after := by
  obtain ⟨before,label,after⟩ := t
  cases label with
  | call c =>
    obtain ⟨-,-,hle,htest,hbound,-,hsettings,hafter⟩ := hs
    obtain ⟨htext,-,hruns⟩ := @maybeRunScheduled_view before c henabled
    refine (Honest.backUp h hle (htest.trans_lt hbound) (hC c rfl)).congr ?_ ?_
    · exact (congrArg (Settings.text · lastDailyAt) hsettings).trans htext
    · exact (congrArg lastSuccess hafter).trans (lastSuccess_congr hruns)
  | others now =>
    obtain ⟨-,-,hkept,hruns⟩ := hs
    refine Honest.congr h ?_ (lastSuccess_congr hruns)
    change Settings.text after.settings lastDailyAt = Settings.text before.settings lastDailyAt
    rw [Settings.text, hkept _ (List.mem_cons_of_mem _ List.mem_cons_self), Settings.text]

/-- A time of the last daily that is not ahead leaves no backup out. -/
theorem attempts_of_honest {t : BackupMove} (hs : BackupStep t.before t.label t.after)
    (henabled : t.before.settings.flag "backup.enabled" = true) (h : Honest t.before) : AttemptsWhenDue t := by
  intro c hlabel hlate
  have hdaily : dailyDue t.before.settings c.now = true := by
    unfold dailyDue dueAfter
    split
    · rfl
    · split
      · rename_i d hd
        obtain ⟨s,hsuccess,hle⟩ := h d hd
        have hday : ((s + 24 * hour : ℕ) : ℤ) ≤ c.now := Int.ofNat_le.mpr (hlate s hsuccess)
        exact decide_eq_true (by omega)
      · rfl
  obtain ⟨kind,hkind⟩ : ∃ kind, dueKind t.before.settings c.now = some kind := by
    unfold dueKind
    rw [hdaily]
    split <;> exact ⟨_,rfl⟩
  obtain ⟨before,label,after⟩ := t
  change label = .call c at hlabel
  subst hlabel
  obtain ⟨-,-,-,-,-,-,-,hruns⟩ := hs
  obtain ⟨r,hr⟩ := runs_backUp hkind
  exact ⟨r,(congrArg (List.filter isScheduled) hruns).trans ((maybeRunScheduled_view henabled).2.2.trans hr)⟩

/-- While no monthly run fails, a due backup is attempted, and the time of the last daily is not ahead of the successes. -/
theorem due_backups_attempted {init w : BackupWorld} {ts : List BackupMove} (h : Trace BackupStep init ts w)
    (henabled : init.settings.flag "backup.enabled" = true) (h0 : init.settings.text lastDailyAt = "") (hC : ∀ t ∈ ts, MonthlyKept t) :
    (∀ t ∈ ts, AttemptsWhenDue t ∧ Honest t.after) ∧ Honest w := by
  have hinit : Honest init := by
    intro d hd
    rw [h0] at hd
    cases hd
  obtain ⟨⟨-,hw⟩,hall⟩ := h.invariant (I := fun w => w.settings.flag "backup.enabled" = true ∧ Honest w) (C := MonthlyKept)
    ⟨henabled,hinit⟩ (fun t hs hc hb => ⟨enabled_step hs hb.1,honest_step hs hb.1 hb.2 hc⟩) hC
  exact ⟨fun t ht => ⟨attempts_of_honest (h.mem_step t ht) (hall t ht).1.1 (hall t ht).1.2,(hall t ht).2.2⟩,hw⟩

end

/-! ## Runs on fixed inputs -/

/-- The step of an action. -/
def BackupWorld.next (w : BackupWorld) (a : BackupAction) : BackupWorld :=
  match a with
  | .call c => { maybeRunScheduled w c with clock := c.testedAt }
  | .others now => { w with clock := now }

/-- A call that is over within the minute. -/
def callAt (now : Instant) (outcome : Outcome) : BackupAction :=
  .call ⟨now,now + 20 * second,now + 30 * second,now + 40 * second,outcome,true⟩

theorem callAt_step {w : BackupWorld} {now : Instant} {outcome : Outcome} (hmono : w.clock ≤ now)
    (hbound : now + 40 * second < endOfTime) : BackupStep w (callAt now outcome) (w.next (callAt now outcome)) :=
  ⟨hmono,Nat.le_add_right _ _,Nat.add_le_add_left (Nat.mul_le_mul_right _ (by decide)) _,
    Nat.add_le_add_left (Nat.mul_le_mul_right _ (by decide)) _,hbound,rfl,rfl,rfl⟩

/-- Backups are switched on, and none was made. -/
def freshBackup : BackupWorld := ⟨Settings.set (fun _ => none) "backup.enabled" "1",[],0⟩

/-- The first of November 2026. -/
def november : Instant := 20758 * day

/-- A daily backup on the last of October, then the monthly one, and the next day's. -/
def keptMonthly : List BackupAction :=
  [callAt (november - 20 * hour) .ok,callAt (november + 1 * hour) .ok,callAt (november + 26 * hour) .failed]

theorem due_backups_attempted_example :
    ((keptMonthly.foldl BackupWorld.next freshBackup).runs.filter isScheduled).map (fun r => (r.kind,r.ok)) =
      [(.daily,true),(.monthly,true),(.daily,false)] ∧
    Honest (keptMonthly.foldl BackupWorld.next freshBackup) := by
  have hrun : Trace BackupStep freshBackup (walk BackupWorld.next freshBackup keptMonthly) (keptMonthly.foldl BackupWorld.next freshBackup) := by
    refine trace_of_walk (fun t ht => ?_)
    simp only [keptMonthly, walk, List.mem_cons, List.not_mem_nil, or_false] at ht
    rcases ht with rfl | rfl | rfl <;> exact callAt_step (by decide +kernel) (by decide +kernel)
  refine ⟨by decide +kernel,(due_backups_attempted hrun (by decide +kernel) (by decide +kernel) (fun t ht c hlabel => ?_)).2⟩
  simp only [keptMonthly, walk, List.mem_cons, List.not_mem_nil, or_false] at ht
  rcases ht with rfl | rfl | rfl <;> cases hlabel
  · exact fun _ => (by decide)
  · exact fun _ => (by decide)
  · exact fun hdue => absurd hdue (by decide +kernel)

/-- The first monthly run fails. -/
def failedMonthly : List BackupAction := [callAt (november + 1 * hour) .failed,callAt (november + 24 * hour) .ok]

/-- After a failed monthly run there is a time of the last daily without a backup, and the next day's backup is left out. -/
theorem failed_monthly_postpones :
    (failedMonthly.foldl BackupWorld.next freshBackup).runs = [⟨.monthly,november + 1 * hour + 30 * second,false⟩] ∧
    ¬ ∀ ts w, Trace BackupStep freshBackup ts w → ∀ t ∈ ts, AttemptsWhenDue t ∧ Honest t.after := by
  refine ⟨by decide +kernel,fun hall => ?_⟩
  have hrun : Trace BackupStep freshBackup (walk BackupWorld.next freshBackup failedMonthly)
      (failedMonthly.foldl BackupWorld.next freshBackup) := by
    refine trace_of_walk (fun t ht => ?_)
    simp only [failedMonthly, walk, List.mem_cons, List.not_mem_nil, or_false] at ht
    rcases ht with rfl | rfl <;> exact callAt_step (by decide +kernel) (by decide +kernel)
  obtain ⟨hattempts,-⟩ := hall _ _ hrun _ (List.mem_cons_of_mem _ List.mem_cons_self)
  have hnone : lastSuccess (freshBackup.next (callAt (november + 1 * hour) .failed)).runs = none := by decide +kernel
  have hsame : ((freshBackup.next (callAt (november + 1 * hour) .failed)).next (callAt (november + 24 * hour) .ok)).runs =
      (freshBackup.next (callAt (november + 1 * hour) .failed)).runs := by
    decide +kernel
  obtain ⟨r,hr⟩ := hattempts _ rfl (fun s hs => absurd (hnone.symm.trans hs) (by simp))
  dsimp only at hr
  rw [hsame] at hr
  exact absurd hr (by simp)

end Protek.Backup
