import Mathlib.Data.String.Basic
import Protek.Foundation.Trace
import Protek.Targets.DecisionWriters

/-! # The public counts

`/api/v1/stats` counts the decisions first seen in a week. There is no index on that
column, and the query asks for `last_seen_at` as well, which has one; the answer is kept
for a minute in each worker.
-/
namespace Protek.Outbound.Stats
open Foundation Foundation.PyText Foundation.Clock Protek.Store Protek.Mirror Protek.Policy Protek.Targets.DecisionWriters

/-! ## The queries -/

/-- `WHERE last_seen_at >= ? AND first_seen_at >= ?`. -/
def newSince (db : Db) (cutoff : String) : List DecisionRow :=
  db.decisions.rows.filter (fun r => cutoff ≤ r.lastSeenAt ∧ cutoff ≤ r.firstSeenAt)

/-- What is meant: `WHERE first_seen_at >= ?`. -/
def firstSeenSince (db : Db) (cutoff : String) : List DecisionRow := db.decisions.rows.filter (fun r => cutoff ≤ r.firstSeenAt)

/-- The country codes of the rows' addresses, each once; addresses without one are passed over. -/
def countryCodes (db : Db) (rows : List DecisionRow) : List String :=
  (((rows.filterMap (fun r => db.geoCache.find r.value)).map GeoRow.countryCode).filter (fun c => c ≠ "")).dedup

structure Body where
  activeBans : ℤ
  newBans7d : ℕ
  countries7d : ℕ
  generatedAt : Instant
  deriving DecidableEq, Repr

def cutoffOf (gen : Instant) : String := isoformat (gen - 7 * day)

def activeTotal (db : Db) : String := orElse (db.settings "poller.active_total") "0"

/-- The body that `_compute_stats` makes of what it has read, `none` where `int` raises. -/
def statsBody (T : CharTable) (active : String) (newBans countries : ℕ) (gen : Instant) : Option Body :=
  (pyInt T active).map (fun n => ⟨n,newBans,countries,gen / second * second⟩)

/-! ## When rows were seen -/

abbrev Move := Transition Db Write

/-- When the row of a key was first and last seen. -/
def seen (db : Db) (k : String × Identity) : Option (String × String) :=
  (db.decisions.find k).map (fun r => (r.firstSeenAt,r.lastSeenAt))

/-- No row is last seen before it was first seen. -/
def Ordered (db : Db) : Prop := ∀ k p, seen db k = some p → p.1 ≤ p.2

/-- The times written to one key do not run back behind its first. -/
def Forward (T : CharTable) (t : Move) : Prop :=
  ∀ k now, written T t.before t.label = some (k,now) → ∀ p, seen t.before k = some p → p.1 ≤ now

/-- The two queries count alike, whatever the week. -/
def Agrees (db : Db) : Prop := ∀ cutoff, (newSince db cutoff).length = (firstSeenSince db cutoff).length

section
variable {T : CharTable} {db db' : Db}

theorem mem_newSince {cutoff : String} {r : DecisionRow} :
    r ∈ newSince db cutoff ↔ r ∈ db.decisions.rows ∧ cutoff ≤ r.lastSeenAt ∧ cutoff ≤ r.firstSeenAt := by
  rw [newSince, List.mem_filter, decide_eq_true_iff]

theorem ordered_iff : Ordered db ↔ ∀ r ∈ db.decisions.rows, r.firstSeenAt ≤ r.lastSeenAt := by
  constructor
  · intro h r hr
    refine h r.key (r.firstSeenAt,r.lastSeenAt) ?_
    rw [seen, KeyedTable.find_eq_some.mpr ⟨hr,rfl⟩]
    rfl
  · intro h k p hp
    obtain ⟨r,hr,rfl⟩ := Option.map_eq_some_iff.mp hp
    exact h r (KeyedTable.find_eq_some.mp hr).1

theorem newSince_eq (h : Ordered db) (cutoff : String) : newSince db cutoff = firstSeenSince db cutoff := by
  refine List.filter_congr (fun r hr => ?_)
  rw [Bool.decide_and, Bool.and_eq_right_iff_imp, decide_eq_true_iff, decide_eq_true_iff]
  exact fun hfirst => hfirst.trans (ordered_iff.mp h r hr)

theorem agrees_iff : Agrees db ↔ Ordered db := by
  constructor
  · intro h
    rw [ordered_iff]
    intro r hr
    -- the week that starts when the row was first seen
    have hsub : (newSince db r.firstSeenAt).Sublist (firstSeenSince db r.firstSeenAt) := by
      refine List.monotone_filter_right _ (fun q hq => ?_)
      rw [decide_eq_true_iff] at hq ⊢
      exact hq.2
    have hmem : r ∈ firstSeenSince db r.firstSeenAt := List.mem_filter.mpr ⟨hr,decide_eq_true le_rfl⟩
    rw [← hsub.eq_of_length (h r.firstSeenAt)] at hmem
    exact (mem_newSince.mp hmem).2.1
  · exact fun h cutoff => by rw [newSince_eq h]

theorem Ordered.step {a : Write} (h : Ordered db) (hs : Step T db a db') (hf : Forward T ⟨db,a,db'⟩) : Ordered db' := by
  intro k p hp
  obtain ⟨r',hr',rfl⟩ := Option.map_eq_some_iff.mp hp
  rcases find_step hs k with ⟨now,q,hw,hq,hlast,hfirst⟩ | ⟨-,hleaves⟩
  · obtain rfl : q = r' := Option.some_inj.mp (hq.symm.trans hr')
    dsimp only
    rw [hlast, hfirst]
    cases hrow : db.decisions.find k with
    | none => exact le_rfl
    | some r => exact hf k now hw (r.firstSeenAt,r.lastSeenAt) (by rw [seen, hrow]; rfl)
  · obtain ⟨r,hr,hkeeps⟩ := hleaves r' hr'
    dsimp only
    rw [hkeeps.first, hkeeps.last]
    exact h k (r.firstSeenAt,r.lastSeenAt) (by rw [seen, hr]; rfl)

theorem Ordered.forward {a : Write} (h : Ordered db') (hs : Step T db a db') : Forward T ⟨db,a,db'⟩ := by
  intro k now hw p hp
  obtain ⟨r,hr,rfl⟩ := Option.map_eq_some_iff.mp hp
  rcases find_step hs k with ⟨now',q,hw',hq,hlast,hfirst⟩ | ⟨hno,-⟩
  · obtain rfl : now = now' := congrArg Prod.snd (Option.some_inj.mp (hw.symm.trans hw'))
    have hle := h k (q.firstSeenAt,q.lastSeenAt) (by rw [seen, hq]; rfl)
    dsimp only at hle
    rw [hlast, hfirst, hr] at hle
    exact hle
  · exact absurd hw (hno now)

end

/-- The indexed query counts what the plain one counts after every statement of a run, exactly when no statement of the run
writes a time that lies before the row was first seen. -/
theorem stats_query_complete_iff {T : CharTable} {db db' : Db} {ts : List Move} (h : Trace (Step T) db ts db') (h0 : Ordered db) :
    (∀ t ∈ ts, Agrees t.after) ↔ ∀ t ∈ ts, Forward T t :=
  h.forall_iff (A := fun _ => True) h0 (fun _ _ => trivial) (fun _ hs _ hf hI => hI.step hs hf)
    (fun _ hs _ hI => ⟨fun hG => (agrees_iff.mp hG).forward hs,fun hf => agrees_iff.mpr (hI.step hs hf)⟩)

def seenBan : LapiDecision := ⟨1,"192.0.2.7","Ip","ban","crowdsecurity/ssh-bf","crowdsec","4h",none⟩

def pulledAt (db : Db) (now : String) : Move := ⟨db,.mirror (.upsertDecision "local" seenBan now),exec db (.upsertDecision "local" seenBan now)⟩

theorem pulledTwice (now later : String) : Trace (Step CharTable.ascii) Db.empty
    [pulledAt Db.empty now,pulledAt (pulledAt Db.empty now).after later] (pulledAt (pulledAt Db.empty now).after later).after :=
  (Trace.single .mirror).snoc .mirror

/-- A ban that is pulled again an hour later is counted; after a clock that was set back it is not, in the week of that hour. -/
theorem stats_query_complete_iff_example :
    Agrees (pulledAt (pulledAt Db.empty "2026-10-01T08:00:00+00:00").after "2026-10-01T09:00:00+00:00").after ∧
    ¬ Agrees (pulledAt (pulledAt Db.empty "2026-10-01T08:00:00+00:00").after "2026-10-01T07:00:00+00:00").after := by
  have h0 : Ordered Db.empty := fun k p hp => by cases hp
  have hfirst : ∀ now, Forward CharTable.ascii (pulledAt Db.empty now) := fun now k now' _ p hp => by cases hp
  have hsecond : ∀ now later, Forward CharTable.ascii (pulledAt (pulledAt Db.empty now).after later) ↔ now ≤ later := by
    intro now later
    constructor
    · exact fun h => h _ later rfl (now,now) rfl
    · intro hle k t hw p hp
      obtain ⟨hk,ht⟩ := Prod.mk.inj (Option.some_inj.mp hw)
      rw [← hk] at hp
      obtain rfl : (now,now) = p := Option.some_inj.mp hp
      rw [← ht]
      exact hle
  have hiff := fun later => stats_query_complete_iff (pulledTwice "2026-10-01T08:00:00+00:00" later) h0
  constructor
  · refine (hiff "2026-10-01T09:00:00+00:00").mpr ?_ _ (List.mem_cons_of_mem _ (List.mem_singleton_self _))
    intro t ht
    rcases List.mem_cons.mp ht with rfl | ht
    · exact hfirst _
    · rw [List.mem_singleton.mp ht]
      exact (hsecond _ _).mpr (by decide)
  · intro hagrees
    have hback := (hiff "2026-10-01T07:00:00+00:00").mp (by
      intro t ht
      rcases List.mem_cons.mp ht with rfl | ht
      · exact agrees_iff.mpr (h0.step Step.mirror (hfirst "2026-10-01T08:00:00+00:00"))
      · rw [List.mem_singleton.mp ht]
        exact hagrees)
    have hlast := hback _ (List.mem_cons_of_mem _ (List.mem_singleton_self _))
    exact absurd ((hsecond _ _).mp hlast) (by decide)

/-! ## The answer of a minute -/

/-- `STATS_TTL_SEC` in microseconds. -/
def TTL : ℕ := 60 * second

/-- A computation in a worker, with what it has read. -/
structure Job where
  now : ℕ
  gen : Instant
  active : String
  newBans : Option ℕ

/-- The workers: the answer that each has cached and the time of that, the requests that have read the clock, and the
computation of the one that holds the lock. -/
structure World (ι ρ : Type*) where
  db : Db
  clock : ℕ
  cache : ι → Option (Body × ℕ)
  waiting : ι × ρ → Option ℕ
  job : ι → Option Job
  served : List (ℕ × Body)

inductive Action (ι ρ : Type*)
  | write (a : Write)
  | tick (d : ℕ)
  | arrive (x : ι × ρ)
  | cached (x : ι × ρ)
  | begin (x : ι × ρ) (gen : Instant)
  | count (i : ι)
  | finish (i : ι)
  | fail (i : ι)
  | restart (i : ι)

/-- The cached answer, while it is younger than the TTL for a request that came at `now`. -/
def fresh (cached : Option (Body × ℕ)) (now : ℕ) : Option Body :=
  (cached.filter (fun c => (now : ℤ) - c.2 < TTL)).map Prod.fst

section
variable {ι ρ : Type*} [DecidableEq ι] [DecidableEq ρ] (T : CharTable)

/-- One statement of a writer, or one moment of a request. The lock is a worker's own: it keeps other requests of the worker from
the cache, and no writer from the database between two reads. -/
inductive Serve : World ι ρ → Action ι ρ → World ι ρ → Prop
  | write {w : World ι ρ} {a : Write} {db : Db} (h : Step T w.db a db) : Serve w (.write a) { w with db := db }
  | tick {w : World ι ρ} {d : ℕ} : Serve w (.tick d) { w with clock := w.clock + d }
  | arrive {w : World ι ρ} {x : ι × ρ} (h : w.waiting x = none) :
      Serve w (.arrive x) { w with waiting := Function.update w.waiting x (some w.clock) }
  | cached {w : World ι ρ} {x : ι × ρ} {now : ℕ} {body : Body} (h : w.waiting x = some now) (hj : w.job x.1 = none)
      (hc : fresh (w.cache x.1) now = some body) :
      Serve w (.cached x) { w with waiting := Function.update w.waiting x none, served := w.served ++ [(now,body)] }
  | begin {w : World ι ρ} {x : ι × ρ} {gen : Instant} {now : ℕ} (h : w.waiting x = some now) (hj : w.job x.1 = none)
      (hc : fresh (w.cache x.1) now = none) :
      Serve w (.begin x gen)
        { w with waiting := Function.update w.waiting x none, job := Function.update w.job x.1 (some ⟨now,gen,activeTotal w.db,none⟩) }
  | count {w : World ι ρ} {i : ι} {j : Job} (h : w.job i = some j) (hn : j.newBans = none) :
      Serve w (.count i)
        { w with job := Function.update w.job i (some { j with newBans := some (newSince w.db (cutoffOf j.gen)).length }) }
  | finish {w : World ι ρ} {i : ι} {j : Job} {n : ℕ} {body : Body} (h : w.job i = some j) (hn : j.newBans = some n)
      (hb : statsBody T j.active n (countryCodes w.db (newSince w.db (cutoffOf j.gen))).length j.gen = some body) :
      Serve w (.finish i)
        { w with cache := Function.update w.cache i (some (body,j.now)), job := Function.update w.job i none,
                 served := w.served ++ [(j.now,body)] }
  -- an exception in the lock leaves the cache as it was
  | fail {w : World ι ρ} {i : ι} {j : Job} (h : w.job i = some j) : Serve w (.fail i) { w with job := Function.update w.job i none }
  | restart {w : World ι ρ} {i : ι} :
      Serve w (.restart i)
        { w with cache := Function.update w.cache i none, job := Function.update w.job i none,
                 waiting := fun x => if x.1 = i then none else w.waiting x }

end

/-- The database was so at a moment of the run from `since` on. -/
def Since {ι ρ : Type*} (ts : List (Transition (World ι ρ) (Action ι ρ))) (since : ℕ) (P : Db → Prop) : Prop :=
  ∃ t ∈ ts, since ≤ t.before.clock ∧ P t.before.db

/-- Each number of the answer is one that its query gave from `since` on. -/
def Counted {ι ρ : Type*} (T : CharTable) (ts : List (Transition (World ι ρ) (Action ι ρ))) (since : ℕ) (body : Body) : Prop :=
  Since ts since (fun db => pyInt T (activeTotal db) = some body.activeBans) ∧
  ∃ gen, Since ts since (fun db => body.newBans7d = (newSince db (cutoffOf gen)).length) ∧
    Since ts since (fun db => body.countries7d = (countryCodes db (newSince db (cutoffOf gen))).length)

/-- What a computation has read, it read since its request came. -/
structure Job.Reads {ι ρ : Type*} (ts : List (Transition (World ι ρ) (Action ι ρ))) (clock : ℕ) (j : Job) : Prop where
  now : j.now ≤ clock
  active : Since ts j.now (fun db => j.active = activeTotal db)
  newBans : ∀ n, j.newBans = some n → Since ts j.now (fun db => n = (newSince db (cutoffOf j.gen)).length)

structure Fresh {ι ρ : Type*} (T : CharTable) (ts : List (Transition (World ι ρ) (Action ι ρ))) (w : World ι ρ) : Prop where
  waiting : ∀ x now, w.waiting x = some now → now ≤ w.clock
  job : ∀ i j, w.job i = some j → j.Reads ts w.clock
  cache : ∀ i body since, w.cache i = some (body,since) → Counted T ts since body
  served : ∀ p ∈ w.served, ∃ since, p.1 < since + TTL ∧ Counted T ts since p.2

section
variable {ι ρ : Type*} {T : CharTable} {w v : World ι ρ} {ts us : List (Transition (World ι ρ) (Action ι ρ))} {since : ℕ} {body : Body}
  {a : Action ι ρ}

theorem Since.mono {P Q : Db → Prop} (h : Since ts since P) (hPQ : ∀ db, P db → Q db) : Since (ts ++ us) since Q := by
  obtain ⟨t,ht,hle,hP⟩ := h
  exact ⟨t,List.mem_append_left _ ht,hle,hPQ _ hP⟩

theorem Since.here {P : Db → Prop} (hle : since ≤ w.clock) (h : P w.db) : Since (ts ++ [⟨w,a,v⟩]) since P :=
  ⟨_,List.mem_append_right _ (List.mem_singleton_self _),hle,h⟩

theorem Since.ordered (h : ∀ t ∈ ts, Ordered t.before.db) {count : Db → List DecisionRow → ℕ} {cutoff : String} {n : ℕ}
    (hs : Since ts since (fun db => n = count db (newSince db cutoff))) :
    Since ts since (fun db => n = count db (firstSeenSince db cutoff)) := by
  obtain ⟨t,ht,hle,hn⟩ := hs
  rw [newSince_eq (h t ht)] at hn
  exact ⟨t,ht,hle,hn⟩

theorem Counted.mono (h : Counted T ts since body) : Counted T (ts ++ us) since body := by
  obtain ⟨hactive,gen,hbans,hcountries⟩ := h
  exact ⟨hactive.mono fun _ => id,gen,hbans.mono fun _ => id,hcountries.mono fun _ => id⟩

theorem Job.Reads.mono {clock clock' : ℕ} {j : Job} (h : j.Reads ts clock) (hle : clock ≤ clock') : j.Reads (ts ++ us) clock' :=
  ⟨h.now.trans hle,h.active.mono fun _ => id,fun n hn => (h.newBans n hn).mono fun _ => id⟩

/-- The last query makes the answer. -/
theorem Job.Reads.counted {j : Job} {n : ℕ} (h : j.Reads ts w.clock) (hn : j.newBans = some n)
    (hb : statsBody T j.active n (countryCodes w.db (newSince w.db (cutoffOf j.gen))).length j.gen = some body) :
    Counted T (ts ++ [⟨w,a,v⟩]) j.now body := by
  obtain ⟨m,hm,rfl⟩ := Option.map_eq_some_iff.mp hb
  exact ⟨h.active.mono fun db hdb => (congrArg (pyInt T) hdb).symm.trans hm,j.gen,(h.newBans n hn).mono fun _ => id,
    Since.here h.now rfl⟩

/-- A longer run with the same requests and answers. -/
theorem Fresh.mono (h : Fresh T ts w) (hclock : w.clock ≤ v.clock) (hwaiting : v.waiting = w.waiting) (hjob : v.job = w.job)
    (hcache : v.cache = w.cache) (hserved : v.served = w.served) : Fresh T (ts ++ us) v where
  waiting x now hx := (h.waiting x now (hwaiting ▸ hx)).trans hclock
  job i j hi := (h.job i j (hjob ▸ hi)).mono hclock
  cache i body since hi := (h.cache i body since (hcache ▸ hi)).mono
  served p hp := by
    obtain ⟨since,hlt,hcounted⟩ := h.served p (hserved ▸ hp)
    exact ⟨since,hlt,hcounted.mono⟩

theorem fresh_eq_some {cached : Option (Body × ℕ)} {now : ℕ} {body : Body} (h : fresh cached now = some body) :
    ∃ since, cached = some (body,since) ∧ now < since + TTL := by
  obtain ⟨⟨b,since⟩,hc,rfl⟩ := Option.map_eq_some_iff.mp h
  obtain ⟨hcached,hlt⟩ := Option.filter_eq_some_iff.mp hc
  have hlt := of_decide_eq_true hlt
  exact ⟨since,hcached,by omega⟩

theorem update_eq_some {α β : Type*} [DecidableEq α] {f : α → Option β} {a c : α} {b : Option β} {d : β}
    (h : Function.update f a b c = some d) : (c = a ∧ b = some d) ∨ f c = some d := by
  rw [Function.update_apply] at h
  split_ifs at h with hc
  · exact Or.inl ⟨hc,h⟩
  · exact Or.inr h

/-- The workers have just started. -/
structure Started {ι ρ : Type*} (w : World ι ρ) : Prop where
  cache : ∀ i, w.cache i = none
  waiting : ∀ x, w.waiting x = none
  job : ∀ i, w.job i = none
  served : w.served = []

theorem Started.fresh (h : Started w) : Fresh T [] w := by
  refine ⟨fun x now hx => ?_,fun i j hi => ?_,fun i body since hi => ?_,fun p hp => ?_⟩
  · rw [h.waiting] at hx
    cases hx
  · rw [h.job] at hi
    cases hi
  · rw [h.cache] at hi
    cases hi
  · rw [h.served] at hp
    exact absurd hp List.not_mem_nil

variable [DecidableEq ι] [DecidableEq ρ]

theorem Fresh.step (h : Fresh T ts w) (hs : Serve T w a v) : Fresh T (ts ++ [⟨w,a,v⟩]) v := by
  have hkeep : Fresh T (ts ++ [⟨w,a,v⟩]) w := h.mono le_rfl rfl rfl rfl rfl
  cases hs with
  | write _ => exact h.mono le_rfl rfl rfl rfl rfl
  | tick => exact h.mono (Nat.le_add_right _ _) rfl rfl rfl rfl
  | arrive _ =>
    refine ⟨fun y now hy => ?_,hkeep.job,hkeep.cache,hkeep.served⟩
    rcases update_eq_some hy with ⟨-,hnow⟩ | hy
    · exact (Option.some_inj.mp hnow).ge
    · exact h.waiting y now hy
  | @cached x now body hx hj hc =>
    refine ⟨fun y now hy => ?_,hkeep.job,hkeep.cache,fun p hp => ?_⟩
    · rcases update_eq_some hy with ⟨-,hnow⟩ | hy
      · cases hnow
      · exact h.waiting y now hy
    · rcases List.mem_append.mp hp with hp | hp
      · exact hkeep.served p hp
      · rw [List.mem_singleton.mp hp]
        obtain ⟨since,hsome,hlt⟩ := fresh_eq_some hc
        exact ⟨since,hlt,hkeep.cache x.1 body since hsome⟩
  | @begin x gen now hx hj hc =>
    refine ⟨fun y now hy => ?_,fun i j hi => ?_,hkeep.cache,hkeep.served⟩
    · rcases update_eq_some hy with ⟨-,hnow⟩ | hy
      · cases hnow
      · exact h.waiting y now hy
    · rcases update_eq_some hi with ⟨-,hj⟩ | hi
      · rw [← Option.some_inj.mp hj]
        exact ⟨h.waiting x now hx,Since.here (h.waiting x now hx) rfl,fun n hn => by cases hn⟩
      · exact hkeep.job i j hi
  | @count i j hi hn =>
    refine ⟨hkeep.waiting,fun k l hk => ?_,hkeep.cache,hkeep.served⟩
    have hj := hkeep.job i j hi
    rcases update_eq_some hk with ⟨-,hl⟩ | hk
    · rw [← Option.some_inj.mp hl]
      refine ⟨hj.now,hj.active,fun n hn => ?_⟩
      rw [← Option.some_inj.mp hn]
      exact Since.here hj.now rfl
    · exact hkeep.job k l hk
  | @finish i j n body hi hn hb =>
    have hcounted : ∀ u : World ι ρ, Counted T (ts ++ [⟨w,.finish i,u⟩]) j.now body := fun _ => (h.job i j hi).counted hn hb
    refine ⟨hkeep.waiting,fun k l hk => ?_,fun k b since hk => ?_,fun p hp => ?_⟩
    · rcases update_eq_some hk with ⟨-,hl⟩ | hk
      · cases hl
      · exact hkeep.job k l hk
    · rcases update_eq_some hk with ⟨-,hb⟩ | hk
      · obtain ⟨rfl,rfl⟩ := Prod.mk.inj (Option.some_inj.mp hb)
        exact hcounted _
      · exact hkeep.cache k b since hk
    · rcases List.mem_append.mp hp with hp | hp
      · exact hkeep.served p hp
      · rw [List.mem_singleton.mp hp]
        exact ⟨j.now,Nat.lt_add_of_pos_right (by decide),hcounted _⟩
  | fail _ =>
    refine ⟨hkeep.waiting,fun k l hk => ?_,hkeep.cache,hkeep.served⟩
    rcases update_eq_some hk with ⟨-,hl⟩ | hk
    · cases hl
    · exact hkeep.job k l hk
  | @restart i =>
    refine ⟨fun y now hy => ?_,fun k l hk => ?_,fun k b since hk => ?_,hkeep.served⟩
    · dsimp only at hy
      split_ifs at hy
      exact h.waiting y now hy
    · rcases update_eq_some hk with ⟨-,hl⟩ | hk
      · cases hl
      · exact hkeep.job k l hk
    · rcases update_eq_some hk with ⟨-,hb⟩ | hk
      · cases hb
      · exact hkeep.cache k b since hk

/-- The time a writer's statement carries, in a run with requests. -/
def Forwards (T : CharTable) (t : Transition (World ι ρ) (Action ι ρ)) : Prop :=
  ∀ b, t.label = .write b → Forward T ⟨t.before.db,b,t.after.db⟩

theorem Ordered.serve (h : Ordered w.db) (hs : Serve T w a v) (hf : Forwards T ⟨w,a,v⟩) : Ordered v.db := by
  cases hs with
  | write hw => exact h.step hw (hf _ rfl)
  | _ => exact h

end

def idle : World Unit Unit := ⟨Db.empty,0,fun _ => none,fun _ => none,fun _ => none,[]⟩

end Protek.Outbound.Stats
