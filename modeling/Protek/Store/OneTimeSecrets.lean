import Protek.Foundation.ClockOrder
import Protek.Foundation.Json
import Protek.Foundation.Trace
import Mathlib.Logic.Function.Basic

/-! # One-time secrets

`stash_once` parks a payload in the settings table under a random handle. `pop_once`
reads the row, deletes it and sweeps what has expired, in statements of their own, so
the calls of several workers interleave between them.
-/
namespace Protek.Store
open Foundation Foundation.Clock Foundation.Json

structure Secret where
  payload : Value
  exp : Instant

def Secret.WellFormed (x : Secret) : Prop := x.payload.Plain ∧ x.exp < endOfTime

/-- The text of the row. -/
def Secret.record (x : Secret) : String := dumps (.obj [("exp",.str (isoformat x.exp)),("v",x.payload)])

/-- What `token_urlsafe(24)` draws. -/
def isToken (handle : String) : Bool :=
  handle.toList.length = 32 ∧ handle.toList.all (fun c => c.isAlphanum || c = '-' || c = '_')

def onceKey (handle : String) : String := "once." ++ handle

/-- `key LIKE 'once.%'`, where ASCII letters match in either case. -/
def likeOnce (key : String) : Bool := "once.".toList.isPrefixOf (key.toList.map Char.toLower)

/-- `rec.get("exp", "") < now`, `none` where it raises. -/
def expired (rec : Value) (now : String) : Option Bool :=
  match rec with
  | .obj kvs =>
    match ((kvs.find? (fun p => p.1 = "exp")).map Prod.snd).getD (.str "") with
    | .str e => some (decide (e < now))
    | .lone points => some (decide (points < now.toList.map Char.toNat))
    | _ => none
  | _ => none

/-- The sweep deletes a row that has expired, and one that it cannot read. -/
def swept (value now : String) : Bool := ((loads value).bind (fun rec => expired rec now)).getD true

/-- What `pop_once` makes of the row it has read, `none` where it raises. -/
def opened (raw : Option String) (now : String) : Option (Option Value) :=
  match raw with
  | none => some none
  | some raw =>
    if raw = "" then some none
    else
      match loads raw with
      | none => some none
      | some rec =>
        (expired rec now).map (fun late =>
          if late then none
          else
            match rec with
            | .obj kvs => (kvs.find? (fun p => p.1 = "v")).map Prod.snd
            | _ => none)

/-- How far one call of `pop_once` has got. -/
inductive Pop
  | idle
  | asked (handle : String)
  | fetched (handle : String) (raw : Option String)
  | deleted (handle : String) (raw : Option String)
  | dated (handle : String) (raw : Option String) (now : Instant)
  | sweeping (handle : String) (raw : Option String) (now : Instant) (rows : List (String × String))
  | returned (handle : String) (result : Option Value)
  | failed

/-- `stashed` remembers every handle that was ever issued. -/
structure OnceState (ι : Type*) where
  settings : String → Option String
  clock : Instant
  stashed : String → Option Secret
  pops : ι → Pop

inductive OnceAction (ι : Type*)
  | stash (handle : String) (x : Secret)
  | set (key value : String)
  | tick (now : Instant)
  | call (i : ι) (handle : String)
  | read (i : ι)
  | delete (i : ι)
  | date (i : ι)
  | select (i : ι) (rows : List (String × String))
  | sweep (i : ι)
  | finish (i : ι)
  | fail (i : ι)

section
variable {ι : Type*} [DecidableEq ι]

def OnceState.put (s : OnceState ι) (i : ι) (p : Pop) : OnceState ι := { s with pops := Function.update s.pops i p }

def OnceState.drop (s : OnceState ι) (key : String) : OnceState ι :=
  { s with settings := Function.update s.settings key none }

@[simp] theorem OnceState.put_settings (s : OnceState ι) (i : ι) (p : Pop) : (s.put i p).settings = s.settings := rfl

@[simp] theorem OnceState.put_pops_self (s : OnceState ι) (i : ι) (p : Pop) : (s.put i p).pops i = p :=
  Function.update_self ..

theorem OnceState.put_pops_of_ne (s : OnceState ι) {i j : ι} (h : j ≠ i) (p : Pop) : (s.put i p).pops j = s.pops j :=
  Function.update_of_ne h ..

omit [DecidableEq ι] in
@[simp] theorem OnceState.drop_settings_self (s : OnceState ι) (key : String) : (s.drop key).settings key = none :=
  Function.update_self ..

omit [DecidableEq ι] in
theorem OnceState.drop_settings_of_ne (s : OnceState ι) {key gone : String} (h : key ≠ gone) :
    (s.drop gone).settings key = s.settings key := Function.update_of_ne h ..

/-- One statement of one call, a stash, or a setting that is written elsewhere. -/
inductive OnceStep : OnceState ι → OnceAction ι → OnceState ι → Prop
  | stash {s : OnceState ι} {handle : String} {x : Secret} (hx : x.WellFormed) (htoken : isToken handle)
      (hfresh : s.stashed handle = none) (hrow : s.settings (onceKey handle) = none) :
      OnceStep s (.stash handle x)
        { s with
          settings := Function.update s.settings (onceKey handle) (some x.record)
          stashed := Function.update s.stashed handle (some x) }
  | set {s : OnceState ι} {key value : String} (h : likeOnce key = false) :
      OnceStep s (.set key value) { s with settings := Function.update s.settings key (some value) }
  | tick {s : OnceState ι} {now : Instant} (h : s.clock ≤ now) (hnow : now < endOfTime) :
      OnceStep s (.tick now) { s with clock := now }
  | call {s : OnceState ι} {i : ι} {handle : String} (h : s.pops i = .idle) :
      OnceStep s (.call i handle)
        (s.put i (if handle = "" ∨ '/' ∈ handle.toList then .returned handle none else .asked handle))
  | read {s : OnceState ι} {i : ι} {handle : String} (h : s.pops i = .asked handle) :
      OnceStep s (.read i) (s.put i (.fetched handle (s.settings (onceKey handle))))
  | delete {s : OnceState ι} {i : ι} {handle : String} {raw : Option String} (h : s.pops i = .fetched handle raw) :
      OnceStep s (.delete i) ((s.drop (onceKey handle)).put i (.deleted handle raw))
  | date {s : OnceState ι} {i : ι} {handle : String} {raw : Option String} (h : s.pops i = .deleted handle raw) :
      OnceStep s (.date i) (s.put i (.dated handle raw s.clock))
  | select {s : OnceState ι} {i : ι} {handle : String} {raw : Option String} {now : Instant}
      {rows : List (String × String)} (h : s.pops i = .dated handle raw now)
      (hrows : ∀ p, p ∈ rows ↔ likeOnce p.1 = true ∧ s.settings p.1 = some p.2) :
      OnceStep s (.select i rows) (s.put i (.sweeping handle raw now rows))
  | sweep {s : OnceState ι} {i : ι} {handle : String} {raw : Option String} {now : Instant} {p : String × String}
      {rows : List (String × String)} (h : s.pops i = .sweeping handle raw now (p :: rows)) :
      OnceStep s (.sweep i)
        ((if swept p.2 (isoformat now) then s.drop p.1 else s).put i (.sweeping handle raw now rows))
  | finish {s : OnceState ι} {i : ι} {handle : String} {raw : Option String} {now : Instant}
      (h : s.pops i = .sweeping handle raw now []) :
      OnceStep s (.finish i)
        (s.put i ((opened raw (isoformat s.clock)).elim .failed (fun result => .returned handle result)))
  | fail {s : OnceState ι} {i : ι} : OnceStep s (.fail i) (s.put i .failed)

end

abbrev OnceMove (ι : Type*) := Transition (OnceState ι) (OnceAction ι)

/-! ## What is read back -/

theorem loads_record {x : Secret} (h : x.WellFormed) :
    loads x.record = some (.obj [("exp",.str (isoformat x.exp)),("v",x.payload)]) := by
  apply loads_dumps
  simp [Value.Plain, PlainMembers, h.1]

theorem expired_record {x : Secret} {now : Instant} (h : x.WellFormed) (hnow : now < endOfTime) :
    expired (.obj [("exp",.str (isoformat x.exp)),("v",x.payload)]) (isoformat now) = some (decide (x.exp < now)) := by
  have horder : isoformat x.exp < isoformat now ↔ x.exp < now := isoformat_lt_iff h.2 hnow
  simp [expired, horder]

theorem swept_record {x : Secret} {now : Instant} (h : x.WellFormed) (hnow : now < endOfTime) :
    swept x.record (isoformat now) = decide (x.exp < now) := by
  rw [swept, loads_record h, Option.bind_some, expired_record h hnow]
  rfl

theorem record_ne_empty {x : Secret} (h : x.WellFormed) : x.record ≠ "" := by
  intro hempty
  have hload := loads_record h
  rw [hempty] at hload
  cases hload

theorem opened_record {x : Secret} {now : Instant} (h : x.WellFormed) (hnow : now < endOfTime) :
    opened (some x.record) (isoformat now) = some (if x.exp < now then none else some x.payload) := by
  unfold opened
  simp only [if_neg (record_ne_empty h), loads_record h, expired_record h hnow]
  by_cases hlate : x.exp < now <;> simp [hlate]

theorem opened_none (now : String) : opened none now = some none := rfl

theorem onceKey_inj {h h' : String} (heq : onceKey h = onceKey h') : h = h' := by
  have := congrArg String.toList heq
  simp only [onceKey, String.toList_append] at this
  exact String.toList_inj.mp (List.append_cancel_left this)

theorem likeOnce_onceKey (handle : String) : likeOnce (onceKey handle) = true := by
  rw [likeOnce, onceKey, String.toList_append, List.map_append]
  rfl

/-! ## What holds in every state -/

section
variable {ι : Type*}

def OnceState.Parked (s : OnceState ι) (handle raw : String) : Prop :=
  ∃ x, s.stashed handle = some x ∧ x.record = raw

/-- What a call holds was parked under its handle, and what it will sweep under theirs. -/
def OnceState.Fits (s : OnceState ι) : Pop → Prop
  | .fetched handle raw | .deleted handle raw => ∀ r ∈ raw, s.Parked handle r
  | .dated handle raw now => (∀ r ∈ raw, s.Parked handle r) ∧ now ≤ s.clock
  | .sweeping handle raw now rows =>
    (∀ r ∈ raw, s.Parked handle r) ∧ now ≤ s.clock ∧ ∀ other r, (onceKey other,r) ∈ rows → s.Parked other r
  | .returned handle result => ∀ v ∈ result, ∃ x, s.stashed handle = some x ∧ x.payload = v
  | .idle | .asked _ | .failed => True

structure OnceState.Sound (s : OnceState ι) : Prop where
  clock : s.clock < endOfTime
  stashed : ∀ handle x, s.stashed handle = some x → x.WellFormed
  rows : ∀ handle raw, s.settings (onceKey handle) = some raw → s.Parked handle raw
  pops : ∀ i, s.Fits (s.pops i)

theorem OnceState.Fits.mono {s t : OnceState ι} {p : Pop} (h : s.Fits p)
    (hstash : ∀ handle x, s.stashed handle = some x → t.stashed handle = some x) (hclock : s.clock ≤ t.clock) : t.Fits p := by
  have hparked : ∀ handle raw, s.Parked handle raw → t.Parked handle raw := by
    rintro handle raw ⟨x,hx,hr⟩
    exact ⟨x,hstash handle x hx,hr⟩
  cases p with
  | idle => trivial
  | asked handle => trivial
  | failed => trivial
  | fetched handle raw => exact fun r hr => hparked _ _ (h r hr)
  | deleted handle raw => exact fun r hr => hparked _ _ (h r hr)
  | dated handle raw now => exact ⟨fun r hr => hparked _ _ (h.1 r hr),h.2.trans hclock⟩
  | sweeping handle raw now rows =>
    exact ⟨fun r hr => hparked _ _ (h.1 r hr),h.2.1.trans hclock,fun other r hr => hparked _ _ (h.2.2 other r hr)⟩
  | returned handle result =>
    intro v hv
    obtain ⟨x,hx,hpay⟩ := h v hv
    exact ⟨x,hstash handle x hx,hpay⟩

end

section
variable {ι : Type*} [DecidableEq ι]

/-- A turn of one call keeps the rest sound: rows only go. -/
theorem OnceState.Sound.put {s : OnceState ι} (h : s.Sound) {settings : String → Option String}
    (hrows : ∀ key raw, settings key = some raw → s.settings key = some raw) {i : ι} {p : Pop} (hp : s.Fits p) :
    OnceState.Sound { s with settings := settings, pops := Function.update s.pops i p } := by
  refine ⟨h.clock,h.stashed,fun handle raw hr => h.rows handle raw (hrows _ _ hr),fun j => ?_⟩
  rcases eq_or_ne j i with rfl | hj
  · dsimp only
    rw [Function.update_self]
    exact hp
  · dsimp only
    rw [Function.update_of_ne hj]
    exact h.pops j

theorem drop_rows {settings : String → Option String} {gone key raw : String}
    (h : Function.update settings gone none key = some raw) : settings key = some raw := by
  rcases eq_or_ne key gone with rfl | hne
  · rw [Function.update_self] at h
    cases h
  · rwa [Function.update_of_ne hne] at h

theorem OnceState.Sound.step {s t : OnceState ι} {a : OnceAction ι} (h : s.Sound) (hs : OnceStep s a t) : t.Sound := by
  cases hs with
  | @stash handle x hx htoken hfresh hrow =>
    have hgrow : ∀ other y, s.stashed other = some y → Function.update s.stashed handle (some x) other = some y := by
      intro other y hy
      rwa [Function.update_of_ne (by rintro rfl; rw [hfresh] at hy; cases hy)]
    refine ⟨h.clock,fun other y hy => ?_,fun other raw hr => ?_,fun i => (h.pops i).mono hgrow le_rfl⟩
    · dsimp only at hy
      rcases eq_or_ne other handle with rfl | hne
      · rw [Function.update_self] at hy
        cases hy
        exact hx
      · rw [Function.update_of_ne hne] at hy
        exact h.stashed other y hy
    · dsimp only at hr
      rcases eq_or_ne other handle with rfl | hne
      · rw [Function.update_self] at hr
        exact ⟨x,Function.update_self ..,Option.some.inj hr⟩
      · rw [Function.update_of_ne (fun heq => hne (onceKey_inj heq))] at hr
        obtain ⟨y,hy,hraw⟩ := h.rows other raw hr
        exact ⟨y,hgrow other y hy,hraw⟩
  | @set key value hkey =>
    refine ⟨h.clock,h.stashed,fun handle raw hr => h.rows handle raw ?_,h.pops⟩
    have hne : onceKey handle ≠ key := by
      rintro rfl
      rw [likeOnce_onceKey] at hkey
      cases hkey
    dsimp only at hr
    rwa [Function.update_of_ne hne] at hr
  | tick hle hnow =>
    exact ⟨hnow,h.stashed,h.rows,fun i => (h.pops i).mono (fun _ _ hx => hx) hle⟩
  | @call i handle hi =>
    refine h.put (fun _ _ hr => hr) ?_
    split
    · rintro v ⟨⟩
    · trivial
  | @read i handle hi => exact h.put (fun _ _ hr => hr) (fun r hr => h.rows handle r hr)
  | @delete i handle raw hi =>
    have hfits := h.pops i
    rw [hi] at hfits
    exact h.put (fun _ _ hr => drop_rows hr) hfits
  | @date i handle raw hi =>
    have hfits := h.pops i
    rw [hi] at hfits
    exact h.put (fun _ _ hr => hr) ⟨hfits,le_rfl⟩
  | @select i handle raw now rows hi hrows =>
    have hfits := h.pops i
    rw [hi] at hfits
    exact h.put (fun _ _ hr => hr) ⟨hfits.1,hfits.2,fun other r hr => h.rows other r ((hrows _).mp hr).2⟩
  | @sweep i handle raw now p rows hi =>
    have hfits := h.pops i
    rw [hi] at hfits
    have hrest : s.Fits (.sweeping handle raw now rows) :=
      ⟨hfits.1,hfits.2.1,fun other r hr => hfits.2.2 other r (List.mem_cons_of_mem _ hr)⟩
    split
    · exact h.put (fun _ _ hr => drop_rows hr) hrest
    · exact h.put (fun _ _ hr => hr) hrest
  | @finish i handle raw now hi =>
    have hfits := h.pops i
    rw [hi] at hfits
    refine h.put (fun _ _ hr => hr) ?_
    cases raw with
    | none =>
      rintro v ⟨⟩
    | some raw =>
      obtain ⟨x,hx,rfl⟩ := hfits.1 raw rfl
      rw [opened_record (h.stashed handle x hx) h.clock]
      intro v hv
      refine ⟨x,hx,?_⟩
      split at hv
      · cases hv
      · exact Option.some.inj hv
  | fail => exact h.put (fun _ _ hr => hr) trivial

/-- A call that has found the row of a handle and may still show it, or has. -/
def Took (handle : String) : Pop → Prop
  | .fetched h raw | .deleted h raw | .dated h raw _ | .sweeping h raw _ _ => h = handle ∧ raw ≠ none
  | .returned h result => h = handle ∧ result ≠ none
  | .idle | .asked _ | .failed => False

/-- One call at most has found the row, which is gone once that call is past its deletion. -/
structure OnceState.Single (s : OnceState ι) : Prop where
  unique : ∀ i j handle, Took handle (s.pops i) → Took handle (s.pops j) → i = j
  gone : ∀ i handle, Took handle (s.pops i) → (∀ raw, s.pops i ≠ .fetched handle raw) →
    s.settings (onceKey handle) = none

/-- No call finds a row that another one has read and not yet deleted. -/
def ReadsAlone (t : OnceMove ι) : Prop :=
  ∀ j handle, t.label = .read j → t.before.pops j = .asked handle → t.before.settings (onceKey handle) ≠ none →
    ∀ i raw, t.before.pops i ≠ .fetched handle (some raw)

theorem none_of_rows {settings settings' : String → Option String}
    (hrows : ∀ key raw, settings' key = some raw → settings key = some raw) {key : String} (h : settings key = none) :
    settings' key = none := by
  cases hk : settings' key with
  | none => rfl
  | some raw =>
    rw [hrows key raw hk] at h
    cases h

theorem OnceState.Single.put {s : OnceState ι} (h : s.Single) {settings : String → Option String}
    (hrows : ∀ key raw, settings key = some raw → s.settings key = some raw) {i : ι} {p : Pop}
    (htook : ∀ handle, Took handle p → Took handle (s.pops i))
    (hgone : ∀ handle, Took handle p → (∀ raw, p ≠ .fetched handle raw) →
      (∀ raw, s.pops i ≠ .fetched handle raw) ∨ settings (onceKey handle) = none) :
    OnceState.Single { s with settings := settings, pops := Function.update s.pops i p } := by
  have hback : ∀ j handle, Took handle (Function.update s.pops i p j) → Took handle (s.pops j) := by
    intro j handle hj
    rcases eq_or_ne j i with rfl | hne
    · rw [Function.update_self] at hj
      exact htook handle hj
    · rwa [Function.update_of_ne hne] at hj
  refine ⟨fun j k handle hj hk => h.unique j k handle (hback j handle hj) (hback k handle hk),fun j handle hj hpast => ?_⟩
  dsimp only at hj hpast ⊢
  rcases eq_or_ne j i with rfl | hne
  · rw [Function.update_self] at hj hpast
    rcases hgone handle hj hpast with hold | hnone
    · exact none_of_rows hrows (h.gone j handle (htook handle hj) hold)
    · exact hnone
  · rw [Function.update_of_ne hne] at hj hpast
    exact none_of_rows hrows (h.gone j handle hj hpast)

omit [DecidableEq ι] in
theorem OnceState.Fits.stashed {s : OnceState ι} {handle : String} {p : Pop} (h : s.Fits p) (ht : Took handle p) :
    ∃ x, s.stashed handle = some x := by
  cases p with
  | idle | asked | failed => exact ht.elim
  | fetched other raw | deleted other raw =>
    obtain ⟨rfl,hraw⟩ := ht
    obtain ⟨r,hr⟩ := Option.ne_none_iff_exists'.mp hraw
    obtain ⟨x,hx,-⟩ := h r hr
    exact ⟨x,hx⟩
  | dated other raw | sweeping other raw =>
    obtain ⟨rfl,hraw⟩ := ht
    obtain ⟨r,hr⟩ := Option.ne_none_iff_exists'.mp hraw
    obtain ⟨x,hx,-⟩ := h.1 r hr
    exact ⟨x,hx⟩
  | returned other result =>
    obtain ⟨rfl,hres⟩ := ht
    obtain ⟨v,hv⟩ := Option.ne_none_iff_exists'.mp hres
    obtain ⟨x,hx,-⟩ := h v hv
    exact ⟨x,hx⟩

theorem OnceState.Single.step {s t : OnceState ι} {a : OnceAction ι} (h : s.Single) (hsound : s.Sound) (hs : OnceStep s a t)
    (halone : ReadsAlone ⟨s,a,t⟩) : t.Single := by
  cases hs with
  | @stash handle x hx htoken hfresh hrow =>
    refine ⟨h.unique,fun i other hi hpast => ?_⟩
    have hne : other ≠ handle := by
      rintro rfl
      obtain ⟨y,hy⟩ := (hsound.pops i).stashed hi
      rw [hfresh] at hy
      cases hy
    dsimp only
    rw [Function.update_of_ne (fun heq => hne (onceKey_inj heq))]
    exact h.gone i other hi hpast
  | @set key value hkey =>
    refine ⟨h.unique,fun i other hi hpast => ?_⟩
    have hne : onceKey other ≠ key := by
      rintro rfl
      rw [likeOnce_onceKey] at hkey
      cases hkey
    dsimp only
    rw [Function.update_of_ne hne]
    exact h.gone i other hi hpast
  | tick hle hnow => exact ⟨h.unique,h.gone⟩
  | @call i handle hi =>
    have hnot : ∀ other, ¬ Took other (if handle = "" ∨ '/' ∈ handle.toList then .returned handle none else .asked handle) := by
      intro other
      split
      · exact fun ht => ht.2 rfl
      · exact id
    exact h.put (fun _ _ hr => hr) (fun other ht => (hnot other ht).elim) (fun other ht => (hnot other ht).elim)
  | @read j handle hj =>
    have hfound : ∀ i other, Took other (.fetched handle (s.settings (onceKey handle))) → ¬ Took other (s.pops i) := by
      rintro i other ⟨rfl,hraw⟩ hi
      refine hraw (h.gone i handle hi (fun raw hraw' => ?_))
      cases raw with
      | none =>
        rw [hraw'] at hi
        exact hi.2 rfl
      | some raw => exact halone j handle rfl hj hraw i raw hraw'
    refine ⟨fun i k other hi hk => ?_,fun i other hi hpast => ?_⟩
    · rcases eq_or_ne i j with rfl | hij
      · rcases eq_or_ne k i with rfl | hki
        · rfl
        · rw [s.put_pops_self] at hi
          rw [s.put_pops_of_ne hki] at hk
          exact (hfound k other hi hk).elim
      · rw [s.put_pops_of_ne hij] at hi
        rcases eq_or_ne k j with rfl | hkj
        · rw [s.put_pops_self] at hk
          exact (hfound i other hk hi).elim
        · rw [s.put_pops_of_ne hkj] at hk
          exact h.unique i k other hi hk
    · rcases eq_or_ne i j with rfl | hij
      · rw [s.put_pops_self] at hi hpast
        obtain ⟨rfl,-⟩ := hi
        exact absurd rfl (hpast _)
      · rw [s.put_pops_of_ne hij] at hi hpast
        exact h.gone i other hi hpast
  | @delete i handle raw hi =>
    refine h.put (fun _ _ hr => drop_rows hr) (fun other ht => by rw [hi]; exact ht) (fun other ht _ => Or.inr ?_)
    rw [← ht.1]
    exact s.drop_settings_self _
  | @date i handle raw hi =>
    exact h.put (fun _ _ hr => hr) (fun other ht => by rw [hi]; exact ht)
      (fun other _ _ => Or.inl (fun raw heq => by rw [hi] at heq; cases heq))
  | @select i handle raw now rows hi hrows =>
    exact h.put (fun _ _ hr => hr) (fun other ht => by rw [hi]; exact ht)
      (fun other _ _ => Or.inl (fun raw heq => by rw [hi] at heq; cases heq))
  | @sweep i handle raw now p rows hi =>
    have hpast : ∀ other raw, s.pops i ≠ .fetched other raw := by
      intro other raw heq
      rw [hi] at heq
      cases heq
    split
    · exact h.put (fun _ _ hr => drop_rows hr) (fun other ht => by rw [hi]; exact ht) (fun other _ _ => Or.inl (hpast other))
    · exact h.put (fun _ _ hr => hr) (fun other ht => by rw [hi]; exact ht) (fun other _ _ => Or.inl (hpast other))
  | @finish i handle raw now hi =>
    refine h.put (fun _ _ hr => hr) (fun other ht => ?_) (fun other _ _ => Or.inl (fun raw heq => by rw [hi] at heq; cases heq))
    rw [hi]
    cases raw with
    | none => exact (ht.2 rfl).elim
    | some raw =>
      cases hopen : opened (some raw) (isoformat s.clock) with
      | none =>
        rw [hopen] at ht
        exact ht.elim
      | some result =>
        rw [hopen] at ht
        exact ⟨ht.1,Option.some_ne_none raw⟩
  | fail => exact h.put (fun _ _ hr => hr) (fun other ht => ht.elim) (fun other ht => ht.elim)

/-! ## Runs -/

/-- Secrets may have been stashed before, no call is under way. -/
def OnceState.Started (s : OnceState ι) : Prop := s.Sound ∧ ∀ i, s.pops i = .idle

/-- The payload of a handle goes to one call at most, and is what was stashed under it. -/
structure OnceState.OncePerHandle (s : OnceState ι) : Prop where
  once : ∀ i j handle v w, s.pops i = .returned handle (some v) → s.pops j = .returned handle (some w) → i = j
  genuine : ∀ i handle v, s.pops i = .returned handle (some v) → ∃ x, s.stashed handle = some x ∧ x.payload = v

/-- No call returns a payload after its expiry. -/
def InTime (t : OnceMove ι) : Prop :=
  ∀ i handle v x, t.label = .finish i → t.after.pops i = .returned handle (some v) →
    t.before.stashed handle = some x → t.before.clock ≤ x.exp

/-- A row goes by the deletion of a call for its own handle, or after its expiry. -/
def SparesOthers (t : OnceMove ι) : Prop :=
  ∀ handle x, t.before.stashed handle = some x → t.before.settings (onceKey handle) ≠ none →
    t.after.settings (onceKey handle) = none →
    (∃ i raw, t.label = .delete i ∧ t.before.pops i = .fetched handle raw) ∨ x.exp < t.before.clock

theorem OnceState.Sound.inTime {t : OnceMove ι} (h : t.before.Sound) (hs : OnceStep t.before t.label t.after) : InTime t := by
  obtain ⟨s,a,s'⟩ := t
  intro i handle v x hl hret hx
  dsimp only at *
  subst hl
  cases hs with
  | @finish i other raw now hi =>
    rw [s.put_pops_self] at hret
    have hfits := h.pops i
    rw [hi] at hfits
    cases raw with
    | none =>
      rw [opened_none] at hret
      cases hret
    | some raw =>
      obtain ⟨y,hy,rfl⟩ := hfits.1 raw rfl
      rw [opened_record (h.stashed other y hy) h.clock] at hret
      dsimp only [Option.elim_some] at hret
      split at hret
      · cases hret
      · rename_i hexp
        obtain ⟨rfl,-⟩ := Pop.returned.inj hret
        rw [hy] at hx
        cases hx
        exact not_lt.mp hexp

theorem OnceState.Sound.sparesOthers {t : OnceMove ι} (h : t.before.Sound) (hs : OnceStep t.before t.label t.after) : SparesOthers t := by
  obtain ⟨s,a,s'⟩ := t
  intro handle x hx hrow hgone
  dsimp only at *
  cases hs with
  | @stash other y hy htoken hfresh hnone =>
    have hne : handle ≠ other := by
      rintro rfl
      exact hrow hnone
    dsimp only at hgone
    rw [Function.update_of_ne (fun heq => hne (onceKey_inj heq))] at hgone
    exact absurd hgone hrow
  | @set key value hkey =>
    dsimp only at hgone
    have hne : onceKey handle ≠ key := by
      rintro rfl
      rw [likeOnce_onceKey] at hkey
      cases hkey
    rw [Function.update_of_ne hne] at hgone
    exact absurd hgone hrow
  | @delete i other raw hi =>
    rcases eq_or_ne handle other with rfl | hne
    · exact Or.inl ⟨i,raw,rfl,hi⟩
    · rw [OnceState.put_settings, s.drop_settings_of_ne (fun heq => hne (onceKey_inj heq))] at hgone
      exact absurd hgone hrow
  | @sweep i other raw now p rows hi =>
    right
    have hfits := h.pops i
    rw [hi] at hfits
    split at hgone
    · rename_i hswept
      rcases eq_or_ne (onceKey handle) p.1 with hkey | hne
      · obtain ⟨y,hy,hrec⟩ := hfits.2.2 handle p.2 (by rw [hkey]; exact List.mem_cons_self ..)
        rw [hx] at hy
        cases hy
        rw [← hrec, swept_record (h.stashed handle x hx) (hfits.2.1.trans_lt h.clock)] at hswept
        exact (of_decide_eq_true hswept).trans_le hfits.2.1
      · rw [OnceState.put_settings, s.drop_settings_of_ne hne] at hgone
        exact absurd hgone hrow
    · exact absurd hgone hrow
  | tick | call | read | date | select | finish | fail => exact absurd hgone hrow

omit [DecidableEq ι] in
theorem OnceState.Started.single {s : OnceState ι} (h : s.Started) : s.Single := by
  refine ⟨fun i j handle hi => ?_,fun i handle hi => ?_⟩
  · rw [h.2 i] at hi
    exact hi.elim
  · rw [h.2 i] at hi
    exact hi.elim

/-- In every run no payload is shown late and no call destroys another handle's secret before
its expiry; and if no call reads a row that another one has read and not yet deleted, each
payload is shown once at most. -/
theorem one_time_secrets {s₀ s : OnceState ι} {ts : List (OnceMove ι)} (h0 : s₀.Started)
    (h : Trace OnceStep s₀ ts s) :
    (∀ t ∈ ts, InTime t ∧ SparesOthers t) ∧ ((∀ t ∈ ts, ReadsAlone t) → s.OncePerHandle) := by
  have hsound := h.always (I := OnceState.Sound) h0.1 (fun t hs hI => hI.step hs)
  refine ⟨fun t ht => ?_,fun halone => ?_⟩
  · have hs := h.mem_step t ht
    exact ⟨(hsound.2 t ht).1.inTime hs,(hsound.2 t ht).1.sparesOthers hs⟩
  · have hsingle := h.invariant (I := fun s => s.Sound ∧ s.Single) (C := ReadsAlone) ⟨h0.1,h0.single⟩
      (fun t hs hC hI => ⟨hI.1.step hs,hI.2.step hI.1 hs hC⟩) halone
    refine ⟨fun i j handle v w hi hj => ?_,fun i handle v hi => ?_⟩
    · apply hsingle.1.2.unique i j handle
      · rw [hi]
        exact ⟨rfl,Option.some_ne_none v⟩
      · rw [hj]
        exact ⟨rfl,Option.some_ne_none w⟩
    · have hfits := hsound.1.pops i
      rw [hi] at hfits
      exact hfits v rfl

end

def noSecrets : OnceState Bool := ⟨fun _ => none,0,fun _ => none,fun _ => .idle⟩

theorem noSecrets_started : noSecrets.Started := by
  refine ⟨⟨by decide,?_,?_,fun _ => trivial⟩,fun _ => rfl⟩
  · intro handle x hx
    cases hx
  · intro handle raw hr
    cases hr

def someHandle : String := "Zk3x-9QmT0aVb_7LsWc2eRfYuHnJpD1g"

def tokenSecret : Secret := ⟨.obj [("token",.str "ptk_1")],300 * second⟩

theorem tokenSecret_wellFormed : tokenSecret.WellFormed :=
  ⟨by simp [tokenSecret, Value.Plain, PlainMembers],by decide⟩

theorem tokenSecret_opened : (opened (some tokenSecret.record) (isoformat 0)).elim Pop.failed (Pop.returned someHandle) =
    .returned someHandle (some tokenSecret.payload) := by
  rw [opened_record tokenSecret_wellFormed (by decide)]
  rfl

theorem nothing_left {settings : String → Option String} (hs : ∀ key, key ≠ onceKey someHandle → settings key = none) (p : String × String) :
    p ∈ ([] : List (String × String)) ↔ likeOnce p.1 = true ∧ Function.update settings (onceKey someHandle) none p.1 = some p.2 := by
  rcases eq_or_ne p.1 (onceKey someHandle) with heq | hne
  · simp [heq]
  · simp [Function.update_of_ne hne, hs p.1 hne]

/-- A secret that is shown to the first call and not to the second one. -/
theorem one_time_secrets_example : ∃ ts, ∃ s : OnceState Bool, Trace OnceStep noSecrets ts s ∧ s.OncePerHandle ∧
    s.pops false = .returned someHandle (some tokenSecret.payload) ∧ s.pops true = .fetched someHandle none := by
  have h1 := Trace.single (@OnceStep.stash Bool _ noSecrets someHandle tokenSecret tokenSecret_wellFormed (by decide) rfl rfl)
  have h2 := h1.snoc (@OnceStep.call Bool _ _ false someHandle rfl)
  have h3 := h2.snoc (@OnceStep.call Bool _ _ true someHandle rfl)
  have h4 := h3.snoc (@OnceStep.read Bool _ _ false someHandle rfl)
  have h5 := h4.snoc (@OnceStep.delete Bool _ _ false someHandle _ rfl)
  have h6 := h5.snoc (@OnceStep.read Bool _ _ true someHandle rfl)
  have h7 := h6.snoc (@OnceStep.date Bool _ _ false someHandle _ rfl)
  have h8 := h7.snoc (@OnceStep.select Bool _ _ false someHandle _ _ [] rfl
    (nothing_left (fun key hne => Function.update_of_ne hne ..)))
  have h9 := h8.snoc (@OnceStep.finish Bool _ _ false someHandle _ _ rfl)
  refine ⟨_,_,h9,(one_time_secrets noSecrets_started h9).2 ?_,(OnceState.put_pops_self ..).trans tokenSecret_opened,?_⟩
  swap
  · rw [OnceState.put_pops_of_ne _ (by decide)]
    rfl
  intro t ht j handle hl hask hrow i raw hi
  simp only [List.nil_append, List.cons_append, List.mem_cons, List.not_mem_nil, or_false] at ht
  rcases ht with rfl | rfl | rfl | rfl | rfl | rfl | rfl | rfl | rfl <;> cases hl
  · cases i <;> cases hi
  · cases hask
    exact hrow rfl

theorem both_shown (s : OnceState Bool) :
    let p := (opened (some tokenSecret.record) (isoformat 0)).elim Pop.failed (Pop.returned someHandle)
    ((s.put false p).put true p).pops false = .returned someHandle (some tokenSecret.payload) ∧
      ((s.put false p).put true p).pops true = .returned someHandle (some tokenSecret.payload) := by
  intro p
  have hp : p = _ := tokenSecret_opened
  rw [OnceState.put_pops_self, OnceState.put_pops_of_ne _ (by decide), OnceState.put_pops_self, hp]
  exact ⟨rfl,rfl⟩

/-- Two calls that both read the row before either deletes it both show the payload. -/
theorem shown_twice : ∃ ts, ∃ s : OnceState Bool, Trace OnceStep noSecrets ts s ∧ ¬ s.OncePerHandle ∧
    s.pops false = .returned someHandle (some tokenSecret.payload) ∧ s.pops true = .returned someHandle (some tokenSecret.payload) := by
  have h1 := Trace.single (@OnceStep.stash Bool _ noSecrets someHandle tokenSecret tokenSecret_wellFormed (by decide) rfl rfl)
  have h2 := h1.snoc (@OnceStep.call Bool _ _ false someHandle rfl)
  have h3 := h2.snoc (@OnceStep.call Bool _ _ true someHandle rfl)
  have h4 := h3.snoc (@OnceStep.read Bool _ _ false someHandle rfl)
  have h5 := h4.snoc (@OnceStep.read Bool _ _ true someHandle rfl)
  have h6 := h5.snoc (@OnceStep.delete Bool _ _ false someHandle _ rfl)
  have h7 := h6.snoc (@OnceStep.delete Bool _ _ true someHandle _ rfl)
  have h8 := h7.snoc (@OnceStep.date Bool _ _ false someHandle _ rfl)
  have h9 := h8.snoc (@OnceStep.date Bool _ _ true someHandle _ rfl)
  have hgone : ∀ key, key ≠ onceKey someHandle → Function.update (Function.update noSecrets.settings (onceKey someHandle)
      (some tokenSecret.record)) (onceKey someHandle) none key = none := by
    intro key hne
    rw [Function.update_of_ne hne, Function.update_of_ne hne]
    rfl
  have h10 := h9.snoc (@OnceStep.select Bool _ _ false someHandle _ _ [] rfl (nothing_left hgone))
  have h11 := h10.snoc (@OnceStep.select Bool _ _ true someHandle _ _ [] rfl (nothing_left hgone))
  have h12 := h11.snoc (@OnceStep.finish Bool _ _ false someHandle _ _ rfl)
  have h13 := h12.snoc (@OnceStep.finish Bool _ _ true someHandle _ _ rfl)
  refine ⟨_,_,h13,fun honce => ?_,both_shown _⟩
  have hsame := honce.once false true someHandle _ _ (both_shown _).1 (both_shown _).2
  cases hsame

end Protek.Store
