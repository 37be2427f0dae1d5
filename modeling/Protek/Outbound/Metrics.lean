import Mathlib.Data.List.Nodup
import Protek.Federation.Sources
import Protek.Foundation.Exposition
import Protek.Foundation.PyText

/-! # The metrics that Prometheus reads

`render` writes the families one after the other. The labels hold what sources, scenarios
and operators have named, with the special characters behind a backslash.
-/
namespace Protek.Outbound.Metrics
open Foundation Foundation.PyText Foundation.Clock Foundation.Exposition Protek.Federation

/-- A number as it is printed. -/
abbrev Printed := { s : String // IsValue s }

theorem isValue_toString (n : ℤ) : IsValue (toString n) := by
  have hdigit : ∀ (m : ℕ) (c : Char), c ∈ Nat.toDigits 10 m → blank c = false ∧ c ≠ '\n' ∧ c ≠ '\x7b' := by
    intro m c hc
    have hdig := isDigit_of_mem_toDigits hc
    refine ⟨not_blank_of_nameChar (by rw [nameChar, hdig, Bool.or_true]),?_,?_⟩ <;> (rintro rfl; exact absurd hdig (by decide))
  cases n with
  | ofNat m =>
    have hlist : (toString (Int.ofNat m)).toList = Nat.toDigits 10 m := Nat.toList_repr
    refine ⟨⟨fun h => ?_,fun c hc => ?_⟩,fun h => ?_⟩
    · rw [h] at hlist
      exact absurd hlist.symm (List.ne_nil_of_length_pos Nat.length_toDigits_pos)
    · rw [hlist] at hc
      exact ⟨(hdigit m c hc).1,(hdigit m c hc).2.1⟩
    · rw [hlist] at h
      exact (hdigit m _ (List.mem_of_mem_head? h)).2.2 rfl
  | negSucc m =>
    have hlist : (toString (Int.negSucc m)).toList = '-' :: Nat.toDigits 10 (m + 1) := by
      have : toString (Int.negSucc m) = "-" ++ (m + 1).repr := rfl
      rw [this, String.toList_append, Nat.toList_repr]
      rfl
    refine ⟨⟨fun h => ?_,fun c hc => ?_⟩,fun h => ?_⟩
    · rw [h] at hlist
      cases hlist
    · rw [hlist] at hc
      rcases List.mem_cons.mp hc with rfl | hc
      · exact ⟨by decide,by decide⟩
      · exact ⟨(hdigit _ c hc).1,(hdigit _ c hc).2.1⟩
    · rw [hlist] at h
      exact absurd (Option.some_inj.mp h) (by decide)

/-- `str(int(n))`. -/
def int (n : ℤ) : Printed := ⟨toString n,isValue_toString n⟩

/-! ## The text -/

/-- `s.replace(a, b)` for a single character. -/
def replace (s : String) (a : Char) (b : String) : String :=
  String.ofList (s.toList.flatMap (fun c => if c = a then b.toList else [c]))

/-- `_esc`. -/
def esc (labelValue : String) : String := replace (replace (replace labelValue '\x5c' "\x5c\x5c") '\n' "\x5cn") '\x22' "\x5c\x22"

abbrev Labels := List (String × String)

/-- `_line`. -/
def line (name : String) (value : Printed) (labels : Labels) : String :=
  if labels ≠ [] then
    name ++ "\x7b" ++ ",".intercalate (labels.map (fun l => l.1 ++ "=\x22" ++ esc l.2 ++ "\x22")) ++ "\x7d " ++ value.1
  else name ++ " " ++ value.1

/-- The arguments of one call of `emit`. -/
structure Family where
  helpText : String
  metricType : String
  name : String
  samples : List (Printed × Labels)

def Family.emit (f : Family) : List String :=
  ["# HELP " ++ f.name ++ " " ++ f.helpText,"# TYPE " ++ f.name ++ " " ++ f.metricType] ++
    f.samples.map (fun s => line f.name s.1 s.2)

/-- A family of one sample without labels. -/
def gauge (helpText name : String) (value : Printed) : Family := ⟨helpText,"gauge",name,[(value,[])]⟩

def counter (helpText name : String) (value : Printed) : Family := ⟨helpText,"counter",name,[(value,[])]⟩

/-! ## What is exported -/

/-- What `render` has read: settings as numbers, times in seconds, counts, and rows of a GROUP BY with their keys once each. -/
structure Reads where
  lastAt : Printed
  lag : Printed
  lastOk : Bool
  interval : ℤ
  cycles : ℤ
  duration : Printed
  toAdd : ℤ
  toRemove : ℤ
  reconcileErrors : ℤ
  dryRun : Bool
  active : ℕ
  perOrigin : List (Option String × ℕ)
  perSource : List (String × ℕ)
  sources : Sources
  now : Instant
  syncTotal : ℕ
  syncErrors : ℕ
  pushErrors : ℕ
  targets : List (String × ℕ)
  whitelist : ℕ
  approvals : ℕ
  logins : List (Bool × ℕ)
  geoRows : ℕ
  ctiRows : ℕ
  origins_nodup : (perOrigin.map Prod.fst).Nodup
  perSource_nodup : (perSource.map Prod.fst).Nodup
  targets_nodup : (targets.map Prod.fst).Nodup
  logins_nodup : (logins.map Prod.fst).Nodup

def flag (b : Bool) : Printed := int (if b then 1 else 0)

def healthy (r : SourceRow) (now : Instant) : Bool := r.enabled && !r.paused && !(r.backoffUntil.any (fun u => now < u))

def Reads.families (r : Reads) : List Family :=
  [⟨"Build / phase info; value is always 1.","gauge","protek_build_info",
      [(int 1,[("version","1.0.0"),("phase","50"),("service","protek")])]⟩,
    gauge "Unix timestamp of the last completed poller cycle." "protek_poller_last_at_seconds" r.lastAt,
    gauge "Seconds since the last completed poller cycle." "protek_poller_lag_seconds" r.lag,
    gauge "1 if the most recent cycle succeeded, 0 otherwise." "protek_poller_last_ok" (flag r.lastOk),
    gauge "Configured poller interval (seconds)." "protek_poller_interval_seconds" (int r.interval),
    counter "Total completed poller cycles since process start." "protek_poller_cycles_total" (int r.cycles),
    gauge "Most recent reconcile cycle duration (seconds)." "protek_reconcile_duration_seconds" r.duration,
    gauge "Pending adds at end of last reconcile cycle." "protek_reconcile_to_add" (int r.toAdd),
    gauge "Pending removes at end of last reconcile cycle." "protek_reconcile_to_remove" (int r.toRemove),
    gauge "Errors in the last reconcile cycle." "protek_reconcile_errors" (int r.reconcileErrors),
    gauge "Dry-run flag (1 = no MT writes)." "protek_dry_run" (flag r.dryRun),
    gauge "Distinct IPs currently banned across all sources." "protek_active_decisions" (int r.active),
    ⟨"Distinct active IPs per decision origin.","gauge","protek_active_decisions_by_origin",
      r.perOrigin.map (fun p => (int p.2,[("origin",orElse p.1 "unknown")]))⟩,
    ⟨"Distinct active IPs contributed by each federated source.","gauge","protek_active_decisions_by_source",
      r.perSource.map (fun p => (int p.2,[("source",orElse (some p.1) "unknown")]))⟩,
    ⟨"1 if a source is enabled, unpaused, and not currently in backoff.","gauge","protek_source_health",
      r.sources.rows.map (fun s => (flag (healthy s r.now),[("name",s.name),("url",s.url)]))⟩,
    ⟨"Total decisions returned by each source on its last pull.","gauge","protek_source_last_pull_n",
      r.sources.rows.map (fun s => (int s.lastPullN,[("name",s.name)]))⟩,
    counter "Lifetime count of reconcile cycles persisted to sync_events." "protek_sync_events_total" (int r.syncTotal),
    counter "Lifetime count of reconcile cycles that recorded one or more errors." "protek_sync_error_cycles_total" (int r.syncErrors),
    counter "Lifetime count of failed per-entry bouncer pushes." "protek_push_errors_total" (int r.pushErrors),
    ⟨"Enabled bouncer targets by kind.","gauge","protek_bouncer_targets",
      r.targets.map (fun p => (int p.2,[("kind",orElse (some p.1) "unknown")]))⟩,
    gauge "Active (non-expired) whitelist rules." "protek_whitelist_rules" (int r.whitelist),
    gauge "Decisions awaiting human approval in semi-auto mode." "protek_approval_pending" (int r.approvals),
    ⟨"Lifetime login attempts by result.","counter","protek_login_attempts_total",
      r.logins.map (fun p => (int p.2,[("result",if p.1 then "ok" else "fail")]))⟩,
    gauge "Rows in geo_cache (IP → country/ASN)." "protek_geo_cache_rows" (int r.geoRows),
    gauge "Rows in cti_cache (CrowdSec CTI smoke lookups)." "protek_cti_cache_rows" (int r.ctiRows)]

def render (r : Reads) : String := "\n".intercalate (r.families.flatMap Family.emit ++ [""])

/-! ## What is read back -/

/-- The family as the lines of a scrape. -/
def Family.items (f : Family) : List Item :=
  [.help f.name f.helpText,.kind f.name f.metricType] ++ f.samples.map (fun s => .sample { name := f.name, labels := s.2, value := s.1.1 })

theorem toList_esc (v : String) : (esc v).toList = v.toList.flatMap escape := by
  unfold esc replace
  simp only [String.toList_ofList, List.flatMap_assoc]
  refine List.flatMap_congr (fun c _ => ?_)
  by_cases hback : c = '\x5c'
  · subst hback
    rfl
  by_cases hline : c = '\n'
  · subst hline
    rfl
  by_cases hquote : c = '\x22'
  · subst hquote
    rfl
  · simp [escape, hback, hline, hquote]

theorem toList_line (name : String) (value : Printed) (labels : Labels) :
    (line name value labels).toList = (Item.sample { name := name, labels := labels, value := value.1 }).text := by
  change _ = name.toList ++ labelsText labels ++ ' ' :: value.1.toList
  unfold line labelsText
  by_cases hnil : labels = []
  · rw [if_neg (not_not.mpr hnil), if_pos hnil, String.toList_append, String.toList_append, List.append_nil, List.append_assoc]
    rfl
  · have hlabels : (labels.map (fun l => l.1 ++ "=\x22" ++ esc l.2 ++ "\x22")).map String.toList = labels.map labelText := by
      rw [List.map_map]
      refine List.map_congr_left (fun l _ => ?_)
      simp [labelText, String.toList_append, toList_esc]
    rw [if_pos hnil, if_neg hnil, String.toList_append, String.toList_append, String.toList_append, String.toList_append,
      String.toList_intercalate, hlabels]
    simp

theorem comment_text (keyword name rest : String) :
    keyword ++ name ++ " " ++ rest = String.ofList (keyword.toList ++ name.toList ++ ' ' :: rest.toList) := by
  refine String.toList_inj.mp ?_
  rw [String.toList_ofList, String.toList_append, String.toList_append, String.toList_append, List.append_assoc _ " ".toList]
  rfl

theorem emit_eq (f : Family) : f.emit = f.items.map (fun i => String.ofList i.text) := by
  have hsamples : f.samples.map (fun s => line f.name s.1 s.2) =
      (f.samples.map (fun s => Item.sample { name := f.name, labels := s.2, value := s.1.1 })).map (fun i => String.ofList i.text) := by
    rw [List.map_map]
    refine List.map_congr_left (fun s _ => String.toList_inj.mp ?_)
    rw [toList_line]
    exact String.toList_ofList.symm
  have hhelp : "# HELP " ++ f.name ++ " " ++ f.helpText = String.ofList (Item.help f.name f.helpText).text :=
    comment_text "# HELP " f.name f.helpText
  have hkind : "# TYPE " ++ f.name ++ " " ++ f.metricType = String.ofList (Item.kind f.name f.metricType).text :=
    comment_text "# TYPE " f.name f.metricType
  rw [Family.emit, Family.items, List.map_append, hsamples, hhelp, hkind]
  rfl

theorem render_eq (r : Reads) : render r = write (r.families.flatMap Family.items) := by
  rw [render, write, List.map_flatMap]
  exact congrArg (fun l => "\n".intercalate (l ++ [""])) (List.flatMap_congr (fun f _ => emit_eq f))

/-! ## Names -/

def LABELS : List String := ["version","phase","service","origin","source","name","url","kind","result"]

theorem isName_of_all {s : String} (h : (decide ((s.toList.head?.map nameStart) = some true) && s.toList.all nameChar) = true) : IsName s := by
  obtain ⟨hhead,hall⟩ := (Bool.and_eq_true _ _).mp h
  exact ⟨of_decide_eq_true hhead,fun c hc => List.all_eq_true.mp hall c hc⟩

theorem isName_of_label {key : String} (h : key ∈ LABELS) : IsName key := by
  have hall : LABELS.all (fun s => decide ((s.toList.head?.map nameStart) = some true) && s.toList.all nameChar) = true := by decide +kernel
  exact isName_of_all (List.all_eq_true.mp hall key h)

/-- What the source spells out of a family. -/
def Family.head (f : Family) : String × String × String := (f.name,f.metricType,f.helpText)

def headOk (h : String × String × String) : Bool :=
  decide ((h.1.toList.head?.map nameStart) = some true) && h.1.toList.all nameChar && (h.2.1 ≠ "" && h.2.1.toList.all (fun c => !blank c && c ≠ '\n')) &&
    (decide ((h.2.2.toList.head?.map blank) = some false) && h.2.2.toList.all (fun c => c ≠ '\x5c' && c ≠ '\n'))

/-- Nothing that `render` has read stands in the names, the types or the help texts. -/
def noReads : Reads where
  lastAt := int 0
  lag := int 0
  lastOk := false
  interval := 10
  cycles := 0
  duration := int 0
  toAdd := 0
  toRemove := 0
  reconcileErrors := 0
  dryRun := false
  active := 0
  perOrigin := []
  perSource := []
  sources := Sources.empty
  now := 0
  syncTotal := 0
  syncErrors := 0
  pushErrors := 0
  targets := []
  whitelist := 0
  approvals := 0
  logins := []
  geoRows := 0
  ctiRows := 0
  origins_nodup := List.nodup_nil
  perSource_nodup := List.nodup_nil
  targets_nodup := List.nodup_nil
  logins_nodup := List.nodup_nil

variable (r : Reads)

theorem heads_eq : r.families.map Family.head = noReads.families.map Family.head := rfl

theorem heads_ok : ∀ h ∈ r.families.map Family.head, headOk h = true := by
  rw [heads_eq]
  have hall : (noReads.families.map Family.head).all headOk = true := by decide +kernel
  exact fun h hh => List.all_eq_true.mp hall h hh

theorem names_nodup : (r.families.map Family.name).Nodup := by
  have hnames : r.families.map Family.name = noReads.families.map Family.name := rfl
  rw [hnames]
  decide +kernel

def Family.Labelled (f : Family) : Prop := ∀ s ∈ f.samples, ∀ l ∈ s.2, l.1 ∈ LABELS

theorem labelled_gauge (helpText name : String) (value : Printed) : (gauge helpText name value).Labelled := by
  intro s hs l hl
  rw [List.mem_singleton.mp hs] at hl
  exact absurd hl List.not_mem_nil

theorem labelled_counter (helpText name : String) (value : Printed) : (counter helpText name value).Labelled := labelled_gauge helpText name value

theorem labelled_rows {α : Type*} {helpText metricType name : String} {rows : List α} {sample : α → Printed × Labels}
    (h : ∀ p, ∀ l ∈ (sample p).2, l.1 ∈ LABELS) : (Family.mk helpText metricType name (rows.map sample)).Labelled := by
  intro s hs l hl
  obtain ⟨p,-,rfl⟩ := List.mem_map.mp hs
  exact h p l hl

theorem label_keys : ∀ f ∈ r.families, f.Labelled := by
  simp only [Reads.families, List.forall_mem_cons, labelled_gauge, labelled_counter, true_and]
  refine ⟨?_,labelled_rows ?_,labelled_rows ?_,labelled_rows ?_,labelled_rows ?_,labelled_rows ?_,labelled_rows ?_,?_⟩
  · intro s hs l hl
    rw [List.mem_singleton.mp hs] at hl
    revert l
    decide
  all_goals simp [LABELS]

theorem wellFormed_items : ∀ i ∈ r.families.flatMap Family.items, i.WellFormed := by
  intro i hi
  obtain ⟨f,hf,hi⟩ := List.mem_flatMap.mp hi
  have hhead := heads_ok r f.head (List.mem_map_of_mem hf)
  simp only [headOk, Bool.and_eq_true] at hhead
  obtain ⟨⟨⟨hfirst,hchars⟩,htype,htypeChars⟩,hhelp,hhelpChars⟩ := hhead
  have hname : IsName f.name := isName_of_all (by rw [Bool.and_eq_true]; exact ⟨hfirst,hchars⟩)
  have hword : IsWord f.metricType := isWord_of_all (by rw [Bool.and_eq_true]; exact ⟨htype,htypeChars⟩)
  have hnote : IsNote f.helpText := by
    refine ⟨of_decide_eq_true hhelp,fun hc => ?_,fun hc => ?_⟩
    · exact absurd (List.all_eq_true.mp hhelpChars _ hc) (by decide)
    · exact absurd (List.all_eq_true.mp hhelpChars _ hc) (by decide)
  rcases List.mem_append.mp hi with hi | hi
  · rcases List.mem_cons.mp hi with rfl | hi
    · exact ⟨hname,hnote⟩
    · rw [List.mem_singleton.mp hi]
      exact ⟨hname,hword⟩
  · obtain ⟨s,hs,rfl⟩ := List.mem_map.mp hi
    exact ⟨hname,fun l hl => isName_of_label (label_keys r f hf s hs l hl),s.1.2,rfl⟩

/-- A scrape reads the families as they were emitted: the same names and types, the same samples in the same order, each with
the labels it was given, whatever sources, origins and targets are called. -/
theorem metrics_read_back (r : Reads) : read (render r) = some (r.families.flatMap Family.items) := by
  rw [render_eq]
  exact read_write (wellFormed_items r)

/-! ## One series for each row -/

/-- The series of a family, by the labels that tell them apart. -/
def Family.series (f : Family) : List (String × Labels) := f.samples.map (fun s => (f.name,s.2))

/-- Two keys of a GROUP BY that get the label `unknown`. -/
def Blurred (keys : List (Option String)) : Prop := ∃ a ∈ keys, ∃ b ∈ keys, a ≠ b ∧ orElse a "unknown" = "unknown" ∧ orElse b "unknown" = "unknown"

theorem orElse_eq {a b : Option String} : orElse a "unknown" = orElse b "unknown" ↔
    a = b ∨ (orElse a "unknown" = "unknown" ∧ orElse b "unknown" = "unknown") := by
  have hcases : ∀ a : Option String, orElse a "unknown" = "unknown" ∨ a = some (orElse a "unknown") := by
    intro a
    cases a with
    | none => exact Or.inl rfl
    | some s =>
      by_cases hs : s = ""
      · rw [hs]
        exact Or.inl rfl
      · rw [orElse_some hs]
        exact Or.inr rfl
  constructor
  · intro h
    rcases hcases a with ha | ha
    · exact Or.inr ⟨ha,h.symm.trans ha⟩
    · rcases hcases b with hb | hb
      · exact Or.inr ⟨h.trans hb,hb⟩
      · rw [ha, hb, h]
        exact Or.inl rfl
  · rintro (rfl | ⟨ha,hb⟩)
    · rfl
    · rw [ha, hb]

theorem nodup_unknown {keys : List (Option String)} (hn : keys.Nodup) :
    (keys.map (fun k => orElse k "unknown")).Nodup ↔ ¬ Blurred keys := by
  rw [List.nodup_map_iff_inj_on hn]
  constructor
  · rintro h ⟨a,ha,b,hb,hne,hua,hub⟩
    exact hne (h a ha b hb (hua.trans hub.symm))
  · intro h a ha b hb heq
    rcases orElse_eq.mp heq with heq | ⟨hua,hub⟩
    · exact heq
    · by_contra hne
      exact h ⟨a,ha,b,hb,hne,hua,hub⟩

theorem nodup_series_single (helpText name : String) (value : Printed) :
    (gauge helpText name value).series.Nodup ∧ (counter helpText name value).series.Nodup :=
  ⟨List.nodup_singleton _,List.nodup_singleton _⟩

/-- The series of rows are as many as the values of the one label. -/
theorem nodup_series_rows {α : Type*} {helpText metricType name key : String} {rows : List α} {value : α → Printed} {label : α → String} :
    (Family.mk helpText metricType name (rows.map (fun p => (value p,[(key,label p)])))).series.Nodup ↔ (rows.map label).Nodup := by
  have hseries : (Family.mk helpText metricType name (rows.map (fun p => (value p,[(key,label p)])))).series =
      (rows.map label).map (fun v => (name,[(key,v)])) := by
    rw [Family.series, List.map_map, List.map_map]
    rfl
  rw [hseries]
  refine List.nodup_map_iff (fun v w h => ?_)
  simpa using h

theorem nodup_series_sources (helpText metricType name : String) (value : SourceRow → Printed) :
    (Family.mk helpText metricType name (r.sources.rows.map (fun s => (value s,[("name",s.name),("url",s.url)])))).series.Nodup := by
  have hnames : ((Family.mk helpText metricType name (r.sources.rows.map (fun s => (value s,[("name",s.name),("url",s.url)])))).series.map
      (fun s => s.2.head?)) = (r.sources.rows.map SourceRow.name).map (fun n => some ("name",n)) := by
    rw [Family.series, List.map_map, List.map_map, List.map_map]
    rfl
  refine List.Nodup.of_map (fun s => s.2.head?) ?_
  rw [hnames]
  refine r.sources.names_nodup.map (fun a b h => ?_)
  simpa using h

/-- The payload has one series for each row exactly when no two origins, no two sources and no two kinds of target that the
database tells apart are written as `unknown`. -/
theorem metrics_series_distinct_iff (r : Reads) : (r.families.flatMap Family.series).Nodup ↔
    ¬ Blurred (r.perOrigin.map Prod.fst) ∧ ¬ Blurred (r.perSource.map (fun p => some p.1)) ∧ ¬ Blurred (r.targets.map (fun p => some p.1)) := by
  have hdisjoint : r.families.Pairwise (Function.onFun List.Disjoint Family.series) := by
    have hne : r.families.Pairwise (fun f g => f.name ≠ g.name) := List.pairwise_map.mp (names_nodup r)
    refine hne.imp (fun {f g} hfg s hs hs' => hfg ?_)
    obtain ⟨a,-,rfl⟩ := List.mem_map.mp hs
    obtain ⟨b,-,hb⟩ := List.mem_map.mp hs'
    exact (congrArg Prod.fst hb).symm
  have hsome : ∀ rows : List (String × ℕ), (rows.map Prod.fst).Nodup → (rows.map (fun p => some p.1)).Nodup := by
    intro rows h
    have hmap : rows.map (fun p => some p.1) = (rows.map Prod.fst).map some := (List.map_map ..).symm
    rw [hmap]
    exact h.map (Option.some_injective _)
  have hlogins : (r.logins.map (fun p => if p.1 then "ok" else "fail")).Nodup := by
    have hmap : r.logins.map (fun p => if p.1 then "ok" else "fail") = (r.logins.map Prod.fst).map (fun b => if b then "ok" else "fail") := by
      rw [List.map_map]
      rfl
    rw [hmap]
    exact r.logins_nodup.map (fun a b h => by cases a <;> cases b <;> simp_all)
  have hunknown : ∀ {α : Type} (rows : List (α × ℕ)) (key : α → Option String), (rows.map (fun p => key p.1)).Nodup →
      ((rows.map (fun p => orElse (key p.1) "unknown")).Nodup ↔ ¬ Blurred (rows.map (fun p => key p.1))) := by
    intro α rows key h
    rw [← nodup_unknown h, List.map_map]
    rfl
  have horigins : (r.perOrigin.map (fun p => orElse p.1 "unknown")).Nodup ↔ ¬ Blurred (r.perOrigin.map Prod.fst) :=
    hunknown r.perOrigin id r.origins_nodup
  rw [List.nodup_flatMap, and_iff_left hdisjoint, ← horigins, ← hunknown r.perSource some (hsome _ r.perSource_nodup),
    ← hunknown r.targets some (hsome _ r.targets_nodup)]
  simp only [Reads.families, List.forall_mem_cons, (nodup_series_single _ _ _).1, (nodup_series_single _ _ _).2, nodup_series_rows,
    nodup_series_sources, r.sources.names_nodup, hlogins, true_and, and_true, List.not_mem_nil, false_implies, implies_true]
  exact ⟨fun h => h.2,fun h => ⟨List.nodup_singleton _,h⟩⟩

end Protek.Outbound.Metrics
