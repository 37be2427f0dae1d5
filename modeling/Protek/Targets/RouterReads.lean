import Protek.Targets.DryRun

/-! # A router that cannot be read

The read of a MikroTik walks two address-list resources. A resource that raises is skipped,
an adapter that raises returns no entries, and the cycle takes what it gets for the list: the
poller stores its length. Nothing on the way tells a failed read from an empty list.
-/
namespace Protek.Targets.RouterReads
open Foundation Foundation.PyText Foundation.Clock Protek.Store Protek.Policy Protek.Diff Protek.Targets

/-- What fails while a router is read: the connection, or either resource. -/
structure ReadFault where
  unreachable : Option String := none
  fails : Family → Bool := fun _ => false

/-- `MikroTik.get_address_list` of a configured client. -/
def MikroTik.getAddressList (dotted : ListRow → Bool) (r : Router) (listName : String) (fault : ReadFault) :
    Except String (List Entry) :=
  match fault.unreachable with
  | some e => .error ("connect failed: " ++ e)
  | none => .ok ([Family.v4,Family.v6].flatMap (fun f => if fault.fails f then [] else familyEntries dotted r listName f))

/-- Either MikroTik adapter, with the connection it was given. -/
structure MikroTikAdapter where
  name : String
  legacy : Bool
  host : String
  username : String
  password : String
  listName : String
  filters : TargetFilters := {}

namespace MikroTikAdapter

def kind (b : MikroTikAdapter) : String := if b.legacy then "mikrotik_env" else "mikrotik"

def isConfigured (b : MikroTikAdapter) : Bool := b.host ≠ "" && b.username ≠ "" && b.password ≠ ""

/-- A read that raises counts as an empty list. -/
def snapshot (b : MikroTikAdapter) (dotted : ListRow → Bool) (r : Router) (fault : ReadFault) : List Entry :=
  if b.isConfigured then
    match MikroTik.getAddressList dotted r b.listName fault with
    | .ok entries => entries
    | .error _ => []
  else []

/-- The common `apply`, whose own connection may fail. -/
def apply (b : MikroTikAdapter) (U : CaseMap) (R : RouterOs) (r : Router) (pushFault : Option String)
    (toAdd : List (String × String)) (toRemoveIds : List String) : Router × Except String ApplyResult :=
  if b.isConfigured = false then (r,.ok {})
  else match pushFault with
    | some e => (r,.error ("connect failed: " ++ e))
    | none =>
      let (r',res) := Diff.apply U R b.listName r toAdd toRemoveIds
      (r',.ok res)

/-- The adapter as the cycle meets it. -/
def target (b : MikroTikAdapter) (U : CaseMap) (R : RouterOs) (dotted : ListRow → Bool) (r : Router) (fault : ReadFault)
    (pushFault : Option String) : Target where
  name := b.name
  kind := b.kind
  filters := b.filters
  isConfigured := .ok b.isConfigured
  snapshot := .ok (b.snapshot dotted r fault)
  isConfiguredAgain := .ok b.isConfigured
  apply toAdd toRemoveIds := (b.apply U R r pushFault toAdd toRemoveIds).2

end MikroTikAdapter

/-! ## The cycles of the poller -/

/-- What `Poller.tick` stores of a cycle that returned, less the sizes of the targets page. -/
def recordResult (db : Db) (recordedAt : Instant) (r : CycleResult) : Db :=
  let db := db.setSetting "reconcile.last_at" r.startedAt
  let db := db.setSetting "reconcile.last_duration_ms" (toString r.durationMs)
  let db := db.setSetting "reconcile.last_to_add" (toString r.toAdd)
  let db := db.setSetting "reconcile.last_to_remove" (toString r.toRemove)
  let db := db.setSetting "reconcile.last_unchanged" (toString r.unchanged)
  let db := db.setSetting "reconcile.last_errors" (toString r.errors)
  let db := db.setSetting "reconcile.last_dry_run" (if r.dryRun then "1" else "0")
  let db := db.setSetting "reconcile.last_notes" r.notes
  if r.mtCountValid then
    (db.setSetting "mt.last_list_count" (toString r.mtListCount)).setSetting "mt.last_list_count_at" (isoformat recordedAt)
  else db

/-- The tables, the router, and what a reader of the count expects it to be: the number of
owned entries at the last full read, if there was one. -/
structure World where
  store : CycleStore
  router : Router
  counted : Option ℕ

/-- The arguments of a cycle, and what fails in it. -/
structure LiveCycle where
  args : CycleArgs
  fault : ReadFault := {}
  pushFault : Option String := none
  recordedAt : Instant := 0

inductive Event
  | cycle (c : LiveCycle)
  | elsewhere

/-- The connection stood, and no resource that the router has failed. -/
def fullRead (r : Router) (fault : ReadFault) : Bool :=
  fault.unreachable.isNone && [Family.v4,Family.v6].all (fun f => (r.resource f).isNone || !fault.fails f)

section
variable (E : Env) (R : RouterOs) (dotted : ListRow → Bool) (b : MikroTikAdapter)

def ownedCount (r : Router) : ℕ := (Diff.getAddressList dotted r b.listName).countP (fun e => isOwned e.comment)

namespace World
variable (w : World) (c : LiveCycle)

/-- A count that was stored is the one at the last full read. -/
def CountKept : Prop := ∀ n, w.counted = some n → w.store.db.settings "mt.last_list_count" = some (toString n)

def target : Target := b.target E.caseMap R dotted w.router c.fault c.pushFault

def outcome : CycleOutcome :=
  runOnce E.caseMap E.charTable E.compile E.reputation w.store c.args [w.target E R dotted b c]

/-- One pass of the poller over its one target. -/
def cycle : World :=
  let o := w.outcome E R dotted b c
  { store := match o.result with
      | .ok r => { o.store with db := recordResult o.store.db c.recordedAt r }
      | .error _ => o.store
    router := o.calls.foldl (fun r call => (b.apply E.caseMap R r c.pushFault call.toAdd call.toRemoveIds).1) w.router
    counted := match o.result with
      | .ok _ => if b.isConfigured && fullRead w.router c.fault then some (ownedCount dotted b w.router) else w.counted
      | .error _ => w.counted }

end World

/-! ## What a push says of a failed read -/

/-- The errors that one call of `apply` adds. -/
def applyErrors (res : Except String ApplyResult) : ℕ :=
  match res with
  | .ok res => res.errors
  | .error _ => 1

namespace World
variable (w : World) (c : LiveCycle)

/-- The settings let the cycle get as far as the router. -/
def runs : Bool := thresholdOk E.charTable w.store.db.settings && timeoutOk E.charTable w.store.db.settings

/-- The diff against what was read. -/
def diff : ReconcileDiff :=
  reconcile E.caseMap ((filterDesiredForBouncer E.compile E.reputation b.filters
    (desiredFromDb E.caseMap E.charTable w.store.db c.args.now).1).map decisionOf) (b.snapshot dotted w.router c.fault)

/-- The errors of the push of that diff. -/
def pushErrors : ℕ :=
  applyErrors (b.apply E.caseMap R w.router c.pushFault ((w.diff E dotted b c).toAdd.take c.args.batchCap)
    ((w.diff E dotted b c).toRemove.take c.args.batchCap)).2

/-- There is something to push, the target is not dry, and the router refuses a part of it. -/
def Complains : Prop :=
  bouncerIsDry w.store.targets (w.target E R dotted b c) = false ∧ (w.diff E dotted b c).changes ≠ 0 ∧
    0 < w.pushErrors E R dotted b c

end World

/-- Between two cycles anything may change but the stored count, which the poller alone writes. -/
inductive Step : World → Event → World → Prop
  | cycle {w : World} {c : LiveCycle} (hlive : c.args.dryRun = false) : Step w (.cycle c) (w.cycle E R dotted b c)
  | elsewhere {w : World} {store : CycleStore} {router : Router}
      (hsame : store.db.settings "mt.last_list_count" = w.store.db.settings "mt.last_list_count") :
      Step w .elsewhere { w with store := store, router := router }

/-- The stored count is that of the last full read, and a cycle whose read failed reports an error. -/
def Visible (t : Transition World Event) : Prop :=
  t.after.CountKept ∧
  match t.label with
  | .cycle c => ∀ r, (t.before.outcome E R dotted b c).result = .ok r → b.isConfigured = true →
      fullRead t.before.router c.fault = false → 1 ≤ r.errors
  | .elsewhere => True

/-- All that is read on a full read is owned; on a failed one as many entries are left as were counted last, and the
push that goes with it fails. -/
def Harmless (t : Transition World Event) : Prop :=
  match t.label with
  | .cycle c => t.before.runs E = true → b.isConfigured = true →
      if fullRead t.before.router c.fault then
        ∀ e ∈ Diff.getAddressList dotted t.before.router b.listName, isOwned e.comment = true
      else (∀ n, t.before.counted = some n → (b.snapshot dotted t.before.router c.fault).length = n) ∧
        t.before.Complains E R dotted b c
  | .elsewhere => True

end

section
variable {E : Env} {R : RouterOs} {dotted : ListRow → Bool} {b : MikroTikAdapter} {w : World} {c : LiveCycle}

theorem familyEntries_of_absent {r : Router} {f : Family} {listName : String} (h : (r.resource f).isNone = true) :
    familyEntries dotted r listName f = [] := by
  unfold familyEntries
  rw [Option.isNone_iff_eq_none.mp h]

/-- A full read is the list. -/
theorem snapshot_of_fullRead {r : Router} {fault : ReadFault} (hconf : b.isConfigured = true) (hfull : fullRead r fault = true) :
    b.snapshot dotted r fault = Diff.getAddressList dotted r b.listName := by
  unfold fullRead at hfull
  obtain ⟨hreach,hres⟩ := Bool.and_eq_true_iff.mp hfull
  have hfam : ∀ f ∈ [Family.v4,Family.v6], (if fault.fails f then [] else familyEntries dotted r b.listName f) =
      familyEntries dotted r b.listName f := by
    intro f hf
    rcases Bool.or_eq_true_iff.mp (List.all_eq_true.mp hres f hf) with habsent | hread
    · rw [familyEntries_of_absent habsent, ite_self]
    · have hok : fault.fails f = false := by simpa using hread
      rw [hok]
      rfl
  unfold MikroTikAdapter.snapshot MikroTik.getAddressList
  rw [if_pos hconf, Option.isNone_iff_eq_none.mp hreach]
  change [Family.v4,Family.v6].flatMap _ = _
  rw [List.flatMap_congr hfam]
  simp [Diff.getAddressList]

/-- The part of a worker's dict that decides the stored count and the errors. -/
def counts (r : TargetResult) : String × Bool × ℕ × ℕ := (r.kind,r.snapshotOk,r.snapshotN,r.errors)

theorem counts_note_ite (p : Prop) [Decidable p] (out : TargetResult) (text : String) :
    counts (if p then out.note text else out) = counts out := by
  by_cases h : p
  · rw [if_pos h]
    rfl
  · rw [if_neg h]

theorem counts_push (t : Target) (diff : ReconcileDiff) (cap : ℕ) (out : TargetResult) :
    counts (t.push diff cap out).1 =
      (out.kind,out.snapshotOk,out.snapshotN,out.errors + applyErrors (t.apply (diff.toAdd.take cap) (diff.toRemove.take cap))) := by
  unfold Target.push
  dsimp only
  cases t.apply (diff.toAdd.take cap) (diff.toRemove.take cap) with
  | ok res => rfl
  | error e => rfl

/-- The worker of a target none of whose reads raises: its errors are those of the push. -/
theorem worker_of_read {table : TargetTable} {desired : List DesiredRow} {cap : ℕ} {t : Target} {configured : Bool}
    {current : List Entry} {diff : ReconcileDiff} (hconf : t.isConfigured = .ok configured)
    (hread : t.snapshot = .ok current) (hnil : configured = false → current = []) (hagain : t.isConfiguredAgain = .ok configured)
    (hdiff : reconcile E.caseMap ((filterDesiredForBouncer E.compile E.reputation t.filters desired).map decisionOf) current = diff) :
    ∃ r, (runOneBouncer E.caseMap E.compile E.reputation table desired false cap t).result = .ok r ∧
      counts r = (t.kind,configured,current.length,
        if bouncerIsDry table t = false ∧ configured = true ∧ diff.changes ≠ 0 then
          applyErrors (t.apply (diff.toAdd.take cap) (diff.toRemove.take cap))
        else 0) := by
  have hsnap : t.readSnapshot = (current,({
      name := t.name
      kind := t.kind
      snapshotMs := t.snapshotMs
      snapshotOk := configured
      snapshotN := current.length } : TargetResult)) := by
    unfold Target.readSnapshot
    rw [hconf]
    cases configured with
    | true => rw [hread]
    | false =>
      rw [hnil rfl]
      rfl
  unfold runOneBouncer
  rw [hsnap, hagain]
  dsimp only
  rw [hdiff]
  generalize hfiltered : (if (filterDesiredForBouncer E.compile E.reputation t.filters desired).length < desired.length then _
    else _ : TargetResult) = out
  have hout : counts out = (t.kind,configured,current.length,0) := hfiltered ▸ counts_note_ite _ _ _
  simp only [counts, Prod.mk.injEq] at hout
  obtain ⟨hkind,hok,hn,herr⟩ := hout
  cases hdry : bouncerIsDry table t with
  | true =>
    simp only [Bool.or_true, if_true, Bool.true_eq_false, false_and, if_false]
    refine ⟨_,rfl,?_⟩
    rw [counts_note_ite]
    simp [counts, hkind, hok, hn, herr]
  | false =>
    simp only [Bool.or_false, Bool.false_eq_true, if_false, true_and, Bool.and_eq_true, decide_eq_true_eq]
    by_cases hpush : configured = true ∧ diff.changes ≠ 0
    · rw [if_pos hpush, if_pos hpush]
      refine ⟨_,rfl,?_⟩
      rw [counts_note_ite, counts_push]
      simp [hkind, hok, hn, herr]
    · rw [if_neg hpush, if_neg hpush]
      refine ⟨_,rfl,?_⟩
      rw [counts_note_ite]
      simp [counts, hkind, hok, hn, herr]

/-- Of a cycle that returned, the stored count is what the snapshot held. -/
theorem settings_recordResult (db : Db) (recordedAt : Instant) (r : CycleResult) :
    (recordResult db recordedAt r).settings "mt.last_list_count" =
      if r.mtCountValid then some (toString r.mtListCount) else db.settings "mt.last_list_count" := by
  unfold recordResult
  dsimp only
  cases r.mtCountValid with
  | true => simp
  | false => simp

theorem startsWith_kind : startsWith b.kind "mikrotik" = true := by
  unfold MikroTikAdapter.kind
  cases b.legacy with
  | true => decide
  | false => decide

/-- With one target the totals are those of its future. -/
theorem result_single {st : CycleStore} {args : CycleArgs} {t : Target} {f : Future}
    (hthr : thresholdOk E.charTable st.db.settings = true) (htime : timeoutOk E.charTable st.db.settings = true)
    (hf : runOneBouncer E.caseMap E.compile E.reputation st.targets
      (desiredFromDb E.caseMap E.charTable st.db args.now).1 args.dryRun args.batchCap t = f) :
    (runOnce E.caseMap E.charTable E.compile E.reputation st args [t]).result =
      .ok (resultOf (st.syncEventsSeq + 1) args 1 (Totals.take args.now {} (t,f))) := by
  have hworkers : runWorkers E.caseMap E.charTable E.compile E.reputation st args [t] = [f] := by
    rw [← hf]
    rfl
  unfold runOnce
  rw [hworkers]
  simp only [hthr, htime, settings_desiredFromDb, Bool.true_eq_false, if_false, List.cons_ne_nil]
  rfl

theorem snapshot_of_unconfigured {r : Router} {fault : ReadFault} (hconf : b.isConfigured = false) :
    b.snapshot dotted r fault = [] := by
  unfold MikroTikAdapter.snapshot
  rw [hconf]
  rfl

/-- A cycle that does not raise counts the entries that it read. -/
theorem result_outcome (hlive : c.args.dryRun = false) (hruns : w.runs E = true) :
    ∃ r, (w.outcome E R dotted b c).result = .ok r ∧ r.mtCountValid = b.isConfigured ∧
      r.mtListCount = (b.snapshot dotted w.router c.fault).length ∧
      (b.isConfigured = true → (1 ≤ r.errors ↔ w.Complains E R dotted b c)) := by
  obtain ⟨hthr,htime⟩ := Bool.and_eq_true_iff.mp hruns
  obtain ⟨res,hres,hcounts⟩ := @worker_of_read E w.store.targets
    (desiredFromDb E.caseMap E.charTable w.store.db c.args.now).1 c.args.batchCap (w.target E R dotted b c) b.isConfigured
    (b.snapshot dotted w.router c.fault) (w.diff E dotted b c) rfl rfl snapshot_of_unconfigured rfl rfl
  simp only [counts, Prod.mk.injEq] at hcounts
  obtain ⟨hkind,hok,hn,herr⟩ := hcounts
  have hresult := @result_single E w.store c.args (w.target E R dotted b c) _ hthr htime rfl
  rw [hlive] at hresult
  have hcounted : (startsWith res.kind "mikrotik" && res.snapshotOk) = b.isConfigured := by
    rw [hkind, hok]
    exact congrArg (fun p => p && b.isConfigured) startsWith_kind
  refine ⟨_,hresult,?_,?_,?_⟩
  · simp only [resultOf, Totals.take, hres, hcounted, Bool.false_or]
  · simp only [resultOf, Totals.take, hres, hcounted, hn, Nat.zero_add]
    cases hconf : b.isConfigured with
    | true => rfl
    | false => rw [snapshot_of_unconfigured hconf]; rfl
  · intro hconf
    simp only [resultOf, Totals.take, hres, herr, Nat.zero_add, hconf, true_and]
    change _ ↔ bouncerIsDry _ _ = false ∧ _ ∧ 1 ≤ _
    rw [← and_assoc]
    by_cases hpush : bouncerIsDry w.store.targets (w.target E R dotted b c) = false ∧ (w.diff E dotted b c).changes ≠ 0
    · rw [if_pos hpush]
      exact (and_iff_right hpush).symm
    · rw [if_neg hpush]
      exact ⟨fun h => absurd h (by omega),fun h => absurd h.1 hpush⟩

theorem result_outcome_error (hruns : w.runs E = false) : ∃ e, (w.outcome E R dotted b c).result = .error e := by
  unfold World.outcome runOnce
  simp only [settings_desiredFromDb, List.cons_ne_nil, if_false]
  unfold World.runs at hruns
  cases hthr : thresholdOk E.charTable w.store.db.settings with
  | false => exact ⟨_,rfl⟩
  | true =>
    rw [hthr, Bool.true_and] at hruns
    rw [hruns]
    exact ⟨_,rfl⟩

/-- What a cycle leaves of the two counts. -/
theorem counts_cycle (hlive : c.args.dryRun = false) :
    (w.cycle E R dotted b c).store.db.settings "mt.last_list_count" =
      (if w.runs E && b.isConfigured then some (toString (b.snapshot dotted w.router c.fault).length)
        else w.store.db.settings "mt.last_list_count") ∧
    (w.cycle E R dotted b c).counted =
      (if w.runs E && b.isConfigured && fullRead w.router c.fault then some (ownedCount dotted b w.router) else w.counted) := by
  have hsettings : (w.outcome E R dotted b c).store.db.settings = w.store.db.settings := by
    unfold World.outcome
    rw [(store_runOnce E.caseMap E.charTable E.compile E.reputation w.store c.args _).1]
  unfold World.cycle
  cases hruns : w.runs E with
  | true =>
    obtain ⟨r,hr,hvalid,hcount,_⟩ := @result_outcome E R dotted b w c hlive hruns
    simp only [hr, settings_recordResult, hvalid, hcount, hsettings, Bool.true_and, and_self]
  | false =>
    obtain ⟨e,he⟩ := @result_outcome_error E R dotted b w c hruns
    simp only [he, hsettings, Bool.false_and, Bool.false_eq_true, if_false, and_self]

/-- A cycle that meets a full read stores the owned entries exactly when all it read are owned; after a failed
one the count stays exactly when as many entries are left. -/
theorem countKept_cycle_iff (hlive : c.args.dryRun = false) (hruns : w.runs E = true)
    (hconf : b.isConfigured = true) :
    (w.cycle E R dotted b c).CountKept ↔
      if fullRead w.router c.fault then ∀ e ∈ Diff.getAddressList dotted w.router b.listName, isOwned e.comment = true
      else ∀ n, w.counted = some n → (b.snapshot dotted w.router c.fault).length = n := by
  obtain ⟨hsetting,hcounted⟩ := @counts_cycle E R dotted b w c hlive
  unfold World.CountKept
  rw [hsetting, hcounted, hruns, hconf]
  simp only [Bool.true_and, if_true, Option.some.injEq]
  cases hfull : fullRead w.router c.fault with
  | true =>
    simp only [if_true, Option.some.injEq, forall_eq']
    rw [snapshot_of_fullRead hconf hfull, toString_injective.eq_iff]
    exact eq_comm.trans List.countP_eq_length
  | false =>
    simp only [Bool.false_eq_true, if_false]
    exact forall₂_congr (fun n _ => toString_injective.eq_iff)

/-- Elsewhere nothing is stored. -/
theorem countKept_cycle (hlive : c.args.dryRun = false) (hkept : w.CountKept)
    (hread : ¬ (w.runs E = true ∧ b.isConfigured = true)) : (w.cycle E R dotted b c).CountKept := by
  obtain ⟨hsetting,hcounted⟩ := @counts_cycle E R dotted b w c hlive
  have hno : (w.runs E && b.isConfigured) = false := by simpa using hread
  unfold World.CountKept
  rw [hsetting, hcounted, hno]
  exact hkept

theorem visible_iff_step {t : Transition World Event} (hs : Step E R dotted b t.before t.label t.after)
    (hkept : t.before.CountKept) : Visible E R dotted b t ↔ Harmless E R dotted b t := by
  obtain ⟨v,e,v'⟩ := t
  dsimp only at hs hkept
  cases hs with
  | elsewhere hsame =>
    refine iff_of_true ⟨?_,trivial⟩ trivial
    intro n hn
    exact hsame.trans (hkept n hn)
  | @cycle c hlive =>
    unfold Visible Harmless
    dsimp only
    by_cases hread : v.runs E = true ∧ b.isConfigured = true
    · obtain ⟨hruns,hconf⟩ := hread
      obtain ⟨r,hr,_,_,herr⟩ := @result_outcome E R dotted b v c hlive hruns
      rw [countKept_cycle_iff hlive hruns hconf, hr]
      cases hfull : fullRead v.router c.fault with
      | true => simp [hruns, hconf]
      | false => simp [hruns, hconf, herr hconf]
    · refine iff_of_true ⟨countKept_cycle hlive hkept hread,?_⟩ (fun hruns hconf => absurd ⟨hruns,hconf⟩ hread)
      intro r hr hconf _
      have hruns : v.runs E = false := by
        by_contra hne
        exact hread ⟨by simpa using hne,hconf⟩
      obtain ⟨e,he⟩ := @result_outcome_error E R dotted b v c hruns
      rw [he] at hr
      cases hr

end

/-- For every sequence of live cycles over one MikroTik, beginning before any full read: the
stored count and the errors follow the reads exactly when the reads do no harm. -/
theorem reads_visible_iff (E : Env) (R : RouterOs) (dotted : ListRow → Bool) (b : MikroTikAdapter) {w₀ w : World}
    {ts : List (Transition World Event)} (h : Trace (Step E R dotted b) w₀ ts w) (h0 : w₀.counted = none) :
    (∀ t ∈ ts, Visible E R dotted b t) ↔ ∀ t ∈ ts, Harmless E R dotted b t := by
  have hinit : w₀.CountKept := by
    intro n hn
    rw [h0] at hn
    cases hn
  exact h.forall_iff (A := fun _ => True) hinit (fun _ _ => trivial)
    (fun t hs _ hc hkept => ((visible_iff_step hs hkept).mpr hc).1) (fun t hs _ hkept => visible_iff_step hs hkept)

/-! ## A read that fails in silence -/

def edgeRouter : MikroTikAdapter where
  name := "edge"
  legacy := false
  host := "192.0.2.1"
  username := "protek-api"
  password := "secret"
  listName := "crowdsec"

/-- A router with the one ban in its list. -/
def bannedWorld : World where
  store := { switchedOn.store with db := switchedOn.store.db.setSetting "settings.dry_run" "0" }
  router := ⟨fun f => match f with
    | .v4 => ⟨[⟨"*1","crowdsec","203.0.113.7",some "protek:local:ssh-bf:7"⟩],List.nodup_singleton _⟩
    | .v6 => .empty,true⟩
  counted := none

/-- It does not add again what it has. -/
def sameEntryOs : RouterOs where
  add _ _ _ _ _ := .error "failure: already have such entry"
  removeAbsent _ _ := "no such item"

def liveArgs : CycleArgs := { source := "auto", dryRun := false, batchCap := 200, now := 0 }

def goodCycle : LiveCycle := { args := liveArgs }

/-- The IPv4 list cannot be read, the router can be written. -/
def blindCycle : LiveCycle := { args := liveArgs, fault := { fails := fun f => f = .v4 } }

def exampleTurn (w : World) (c : LiveCycle) : Transition World Event :=
  ⟨w,.cycle c,w.cycle (exampleEnv none) sameEntryOs (fun _ => false) edgeRouter c⟩

def countedWorld : World := (exampleTurn bannedWorld goodCycle).after

theorem exampleTurn_step (w : World) {c : LiveCycle} (hlive : c.args.dryRun = false) :
    Step (exampleEnv none) sameEntryOs (fun _ => false) edgeRouter w (.cycle c) (exampleTurn w c).after := Step.cycle hlive

def silentRun : List (Transition World Event) := [exampleTurn bannedWorld goodCycle] ++ [exampleTurn countedWorld blindCycle]

theorem silentRun_trace : Trace (Step (exampleEnv none) sameEntryOs (fun _ => false) edgeRouter) bannedWorld silentRun
    (exampleTurn countedWorld blindCycle).after :=
  (Trace.single (exampleTurn_step bannedWorld rfl)).snoc (exampleTurn_step countedWorld rfl)

/-- The failed read is stored as an empty list, and the cycle reports no error. -/
theorem failed_read_stored_as_zero :
    ∃ E R dotted b ts w, Trace (Step E R dotted b) bannedWorld ts w ∧ bannedWorld.counted = none ∧
      ¬ (∀ t ∈ ts, Visible E R dotted b t) ∧ w.counted = some 1 ∧
      w.store.db.settings "mt.last_list_count" = some "0" ∧ w.store.db.settings "reconcile.last_errors" = some "0" := by
  have hcounted : (exampleTurn countedWorld blindCycle).after.counted = some 1 := by decide
  have hstored : (exampleTurn countedWorld blindCycle).after.store.db.settings "mt.last_list_count" = some "0" := by decide
  have herrors : (exampleTurn countedWorld blindCycle).after.store.db.settings "reconcile.last_errors" = some "0" := by decide
  refine ⟨exampleEnv none,sameEntryOs,fun _ => false,edgeRouter,silentRun,(exampleTurn countedWorld blindCycle).after,
    silentRun_trace,rfl,?_,hcounted,hstored,herrors⟩
  intro hall
  have hkept : (exampleTurn countedWorld blindCycle).after.CountKept :=
    (hall _ (List.mem_append_right _ (List.mem_singleton_self _))).1
  have hone := hkept 1 hcounted
  rw [hstored] at hone
  exact absurd hone (by decide)

theorem reads_visible_iff_example :
    bannedWorld.counted = none ∧
    ((∀ t ∈ [exampleTurn bannedWorld goodCycle], Visible (exampleEnv none) sameEntryOs (fun _ => false) edgeRouter t) ↔
      ∀ t ∈ [exampleTurn bannedWorld goodCycle], Harmless (exampleEnv none) sameEntryOs (fun _ => false) edgeRouter t) :=
  ⟨rfl,reads_visible_iff (exampleEnv none) sameEntryOs (fun _ => false) edgeRouter
    (Trace.single (exampleTurn_step bannedWorld rfl)) rfl⟩

end Protek.Targets.RouterReads
