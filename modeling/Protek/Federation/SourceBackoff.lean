import Mathlib.Algebra.BigOperators.Group.Finset.Basic
import Mathlib.Algebra.Order.BigOperators.Group.Finset
import Protek.Federation.SourceHealth

/-! # How often a failing source is asked

Between two pulls of a source the backoff of the first one passes, through restarts and whatever else is done
to the sources; and no backoff is longer than half an hour.
-/
namespace Protek.Federation.Health
open Foundation Foundation.Clock Protek.Federation

/-! ## What a pull writes -/

section
variable {s : Sources} {id : ℕ} {r : SourceRow}

theorem mem_update {f : SourceRow → SourceRow} {hf : Sources.SameSource f} (hr : r ∈ (s.update id f hf).rows) :
    ∃ q ∈ s.rows, q.id = r.id ∧ q.name = r.name ∧ (r.id = id → r = f q) ∧ (r.id ≠ id → r = q) := by
  obtain ⟨q,hq,rfl⟩ := List.mem_map.mp hr
  by_cases hid : q.id = id
  · refine ⟨q,hq,?_⟩
    simp [hid, (hf q).1, (hf q).2]
  · refine ⟨q,hq,?_⟩
    simp [hid]

end

/-- The rows after a write: their ids and names, and the backoff of the pulled one. -/
structure Touched (id : ℕ) (P : Option Instant → Option Instant → Prop) (s s' : Sources) : Prop where
  seq : s'.seq = s.seq
  rows : ∀ r ∈ s'.rows, ∃ q ∈ s.rows, q.id = r.id ∧ q.name = r.name ∧ (r.id ≠ id → r.backoffUntil = q.backoffUntil) ∧
    (r.id = id → P q.backoffUntil r.backoffUntil)

theorem Touched.trans {id : ℕ} {P Q R : Option Instant → Option Instant → Prop} {s t u : Sources} (h : Touched id P s t)
    (h' : Touched id Q t u) (hR : ∀ a b c, P a b → Q b c → R a c) : Touched id R s u := by
  refine ⟨h'.seq.trans h.seq,fun r hr => ?_⟩
  obtain ⟨q,hq,hid,hname,hne,heq⟩ := h'.rows r hr
  obtain ⟨p,hp,hid',hname',hne',heq'⟩ := h.rows q hq
  refine ⟨p,hp,hid'.trans hid,hname'.trans hname,fun hrid => ?_,fun hrid => ?_⟩
  · rw [hne hrid, hne' (fun hqid => hrid (hid ▸ hqid))]
  · exact hR _ _ _ (heq' (hid.trans hrid)) (heq hrid)

theorem Touched.mono {id : ℕ} {P Q : Option Instant → Option Instant → Prop} {s t : Sources} (h : Touched id P s t)
    (hQ : ∀ a b, P a b → Q a b) : Touched id Q s t := by
  refine ⟨h.seq,fun r hr => ?_⟩
  obtain ⟨q,hq,hid,hname,hne,heq⟩ := h.rows r hr
  exact ⟨q,hq,hid,hname,hne,fun hrid => hQ _ _ (heq hrid)⟩

theorem Touched.refl (id : ℕ) (s : Sources) : Touched id (fun a b => b = a) s s :=
  ⟨rfl,fun r hr => ⟨r,hr,rfl,rfl,fun _ => rfl,fun _ => rfl⟩⟩

theorem touched_recordPull (s : Sources) (id count : ℕ) (error : String) (ms : ℕ) (now : Instant) :
    Touched id (fun a b => b = a) s (s.recordPull id count error ms now) := by
  refine ⟨rfl,fun r hr => ?_⟩
  obtain ⟨q,hq,hid,hname,heq,hne⟩ := mem_update hr
  exact ⟨q,hq,hid,hname,fun h => by rw [hne h],fun h => by rw [heq h]⟩

theorem touched_setBackoff (s : Sources) (id : ℕ) (untilAt : Option Instant) :
    Touched id (fun _ b => b = untilAt) s (s.setBackoff id untilAt) := by
  refine ⟨rfl,fun r hr => ?_⟩
  obtain ⟨q,hq,hid,hname,heq,hne⟩ := mem_update hr
  exact ⟨q,hq,hid,hname,fun h => by rw [hne h],fun h => by rw [heq h]⟩

/-- What a pull may leave as the backoff of its source. -/
def Backed (now : Instant) : Option ℕ → Option Instant → Option Instant → Prop
  | some k, _, b => b = some (now + backoff k)
  | none, a, b => b = a ∨ b = none

/-- What a pull writes: the backoff of its source and the streak of its name. -/
structure Wrote (w : World) (src : SourceRow) (now : Instant) (wait : Option ℕ) (v : World) : Prop where
  sources : Touched src.id (Backed now wait) w.sources v.sources
  others : ∀ n, n ≠ src.name → v.failStreak n = w.failStreak n
  own : ∀ k, wait = some k → v.failStreak src.name = k

section
variable {w : World} {src : SourceRow} {e : Writes} {ms : ℕ} {now : Instant}

theorem crash_wrote (ok : Bool) (count : ℕ) (error : String) :
    Touched src.id (fun a b => b = a) w.sources (crash w src e ms ok count error).1.sources ∧
      (crash w src e ms ok count error).1.failStreak = w.failStreak := by
  unfold crash
  split
  · exact ⟨.refl _ _,rfl⟩
  · exact ⟨touched_recordPull _ _ _ _ _ _,rfl⟩

theorem upAgain_wrote (count : ℕ) : Touched src.id (Backed now none) w.sources (upAgain w src e ms count).1.sources ∧
    (upAgain w src e ms count).1.failStreak = w.failStreak := by
  unfold upAgain
  dsimp only
  split
  · obtain ⟨ht,hs⟩ := @crash_wrote { w with prevLapiOk := Function.update w.prevLapiOk src.name true } src e ms true count ‹_›
    exact ⟨ht.mono (fun _ _ h => Or.inl h),hs⟩
  · exact ⟨(touched_setBackoff _ _ _).mono (fun _ _ h => Or.inr h),rfl⟩

theorem succeed_wrote (count : ℕ) : Wrote w src now none (succeed w src e ms count).1 := by
  have hrecord := touched_recordPull w.sources src.id count "" ms e.recordedAt
  have hstreak : ∀ n, n ≠ src.name → Function.update w.failStreak src.name 0 n = w.failStreak n :=
    fun n hn => Function.update_of_ne hn _ _
  unfold succeed
  split
  · obtain ⟨ht,hs⟩ := @crash_wrote w src e ms true count ‹_›
    exact ⟨ht.mono (fun _ _ h => Or.inl h),fun n _ => congrFun hs n,nofun⟩
  · dsimp only
    split
    · obtain ⟨ht,hs⟩ := @upAgain_wrote { w.recordPull src e ms count "" with failStreak := Function.update w.failStreak src.name 0 } src e ms now count
      exact ⟨hrecord.trans ht (fun a b c hb hc => hb ▸ hc),fun n hn => (congrFun hs n).trans (hstreak n hn),nofun⟩
    · split
      · obtain ⟨ht,hs⟩ := @crash_wrote { w.recordPull src e ms count "" with
          failStreak := Function.update w.failStreak src.name 0, announced := w.announced ++ [upAnnouncement src false] } src e ms true count ‹_›
        exact ⟨hrecord.trans ht (fun a b c hb hc => Or.inl (hc.trans hb)),fun n hn => (congrFun hs n).trans (hstreak n hn),nofun⟩
      · obtain ⟨ht,hs⟩ := @upAgain_wrote { w.recordPull src e ms count "" with
          failStreak := Function.update w.failStreak src.name 0, announced := w.announced ++ [upAnnouncement src true] } src e ms now count
        exact ⟨hrecord.trans ht (fun a b c hb hc => hb ▸ hc),fun n hn => (congrFun hs n).trans (hstreak n hn),nofun⟩

theorem fail_wrote (error : String) :
    Wrote w src now (waitOf w src e (.lapiError error)) (fail w src e ms now error).1 := by
  have hrecord := touched_recordPull w.sources src.id 0 error ms e.recordedAt
  have hwait := hrecord.trans (touched_setBackoff (w.sources.recordPull src.id 0 error ms e.recordedAt) src.id
    (some (now + backoff (w.failStreak src.name + 1)))) (R := Backed now (some (w.failStreak src.name + 1))) (fun _ _ _ _ hc => hc)
  have hothers : ∀ n, n ≠ src.name → Function.update w.failStreak src.name (w.failStreak src.name + 1) n = w.failStreak n :=
    fun n hn => Function.update_of_ne hn _ _
  have hown : ∀ k, some (w.failStreak src.name + 1) = some k →
      Function.update w.failStreak src.name (w.failStreak src.name + 1) src.name = k := by
    rintro k hk
    rw [Function.update_self]
    exact Option.some_inj.mp hk
  cases hr : e.record with
  | some text =>
    have hwaits : waitOf w src e (.lapiError error) = none := by simp [waitOf, hr]
    have hfail : (fail w src e ms now error).1 = w := by
      unfold fail
      rw [hr]
    rw [hwaits, hfail]
    exact ⟨(Touched.refl _ _).mono (fun _ _ h => Or.inl h),fun _ _ => rfl,nofun⟩
  | none =>
    cases hb : e.backoff with
    | some text =>
      have hwaits : waitOf w src e (.lapiError error) = none := by simp [waitOf, hb]
      rw [hwaits]
      unfold fail
      rw [hr, hb]
      exact ⟨hrecord.mono (fun _ _ h => Or.inl h),hothers,nofun⟩
    | none =>
      have hwaits : waitOf w src e (.lapiError error) = some (w.failStreak src.name + 1) := by simp [waitOf, hr, hb]
      rw [hwaits]
      unfold fail
      rw [hr, hb]
      dsimp only
      split
      · split
        · exact ⟨hwait,hothers,hown⟩
        · exact ⟨hwait,hothers,hown⟩
      · exact ⟨hwait,hothers,hown⟩

theorem pull_wrote (p : Pulled) : Wrote w src now (waitOf w src e p) (w.pull src e ms now p) := by
  cases p with
  | ok count =>
    obtain ⟨ht,hothers,hown⟩ := @succeed_wrote w src e ms now count
    exact ⟨ht,hothers,hown⟩
  | lapiError error =>
    obtain ⟨ht,hothers,hown⟩ := @fail_wrote w src e ms now error
    exact ⟨ht,hothers,hown⟩
  | raised error =>
    obtain ⟨ht,hs⟩ := @crash_wrote w src e ms false 0 error
    exact ⟨ht.mono (fun _ _ h => Or.inl h),fun n _ => congrFun hs n,nofun⟩

end

/-- The clock of the tick and the count of boots are no business of a pull. -/
theorem crash_frame (w : World) (src : SourceRow) (e : Writes) (ms : ℕ) (ok : Bool) (count : ℕ) (error : String) :
    (crash w src e ms ok count error).1.listedAt = w.listedAt ∧ (crash w src e ms ok count error).1.boots = w.boots := by
  unfold crash
  split <;> exact ⟨rfl,rfl⟩

theorem upAgain_frame (w : World) (src : SourceRow) (e : Writes) (ms count : ℕ) :
    (upAgain w src e ms count).1.listedAt = w.listedAt ∧ (upAgain w src e ms count).1.boots = w.boots := by
  unfold upAgain
  dsimp only
  split
  · exact crash_frame _ _ _ _ _ _ _
  · exact ⟨rfl,rfl⟩

theorem succeed_frame (w : World) (src : SourceRow) (e : Writes) (ms count : ℕ) :
    (succeed w src e ms count).1.listedAt = w.listedAt ∧ (succeed w src e ms count).1.boots = w.boots := by
  unfold succeed
  split
  · exact crash_frame _ _ _ _ _ _ _
  · dsimp only
    split
    · exact upAgain_frame _ _ _ _ _
    · split
      · exact crash_frame _ _ _ _ _ _ _
      · exact upAgain_frame _ _ _ _ _

theorem fail_frame (w : World) (src : SourceRow) (e : Writes) (ms : ℕ) (now : Instant) (error : String) :
    (fail w src e ms now error).1.listedAt = w.listedAt ∧ (fail w src e ms now error).1.boots = w.boots := by
  cases hr : e.record with
  | some text =>
    unfold fail
    rw [hr]
    exact ⟨rfl,rfl⟩
  | none =>
    cases hb : e.backoff with
    | some text =>
      unfold fail
      rw [hr, hb]
      exact ⟨rfl,rfl⟩
    | none =>
      unfold fail
      rw [hr, hb]
      dsimp only
      split
      · split <;> exact ⟨rfl,rfl⟩
      · exact ⟨rfl,rfl⟩

theorem pull_frame (w : World) (src : SourceRow) (e : Writes) (ms : ℕ) (now : Instant) (p : Pulled) :
    (w.pull src e ms now p).listedAt = w.listedAt ∧ (w.pull src e ms now p).boots = w.boots := by
  cases p with
  | ok count => exact succeed_frame w src e ms count
  | lapiError error => exact fail_frame w src e ms now error
  | raised error => exact crash_frame w src e ms false 0 error

/-! ## What the administration does to a row -/

section
variable {s : Sources} {r : SourceRow}

theorem seq_le_perform (s : Sources) (op : AdminOp) : s.seq ≤ (s.perform op).seq := by
  unfold Sources.perform
  split
  · next name url apiKey confidence now =>
    unfold Sources.addSource
    split
    · next h =>
      split at h
      · cases h
      · cases h
        exact Nat.le_succ _
    · exact Nat.le_refl _
  · split
    · next h =>
      rw [Sources.deleteSource_ok h]
      exact Nat.le_refl _
    · exact Nat.le_refl _
  · exact Nat.le_refl _
  · exact Nat.le_refl _
  · exact Nat.le_refl _

/-- A row is a new one, or an old one with its name, and only the backoff of the local source can have gone. -/
theorem rows_perform {op : AdminOp} (hr : r ∈ (s.perform op).rows) : (s.seq < r.id ∧ r.backoffUntil = none) ∨
    ∃ q ∈ s.rows, q.id = r.id ∧ q.name = r.name ∧ (r.backoffUntil = q.backoffUntil ∨ r.name = "local" ∧ r.backoffUntil = none) := by
  have hsame : r ∈ s.rows → ∃ q ∈ s.rows, q.id = r.id ∧ q.name = r.name ∧
      (r.backoffUntil = q.backoffUntil ∨ r.name = "local" ∧ r.backoffUntil = none) := fun h => ⟨r,h,rfl,rfl,Or.inl rfl⟩
  cases op with
  | add name url apiKey confidence now =>
    by_cases hname : name ∈ s.rows.map SourceRow.name
    · simp only [Sources.perform, Sources.addSource, dif_pos hname] at hr
      exact Or.inr (hsame hr)
    · simp only [Sources.perform, Sources.addSource, dif_neg hname] at hr
      rcases List.mem_append.mp hr with hr | hr
      · exact Or.inr (hsame hr)
      · rw [List.mem_singleton.mp hr]
        exact Or.inl ⟨Nat.lt_succ_self _,rfl⟩
  | delete id =>
    simp only [Sources.perform] at hr
    split at hr
    · next h =>
      rw [Sources.deleteSource_ok h] at hr
      exact Or.inr (hsame (List.mem_filter.mp hr).1)
    · exact Or.inr (hsame hr)
  | setPaused id paused =>
    obtain ⟨q,hq,rfl⟩ := List.mem_map.mp hr
    by_cases h : q.id = id
    · exact Or.inr ⟨q,hq,by simp [h]⟩
    · exact Or.inr ⟨q,hq,by simp [h]⟩
  | setEnabled id enabled =>
    obtain ⟨q,hq,rfl⟩ := List.mem_map.mp hr
    by_cases h : q.id = id
    · exact Or.inr ⟨q,hq,by simp [h]⟩
    · exact Or.inr ⟨q,hq,by simp [h]⟩
  | reseedLocal url key =>
    obtain ⟨q,hq,rfl⟩ := List.mem_map.mp hr
    by_cases h : q.name = "local"
    · exact Or.inr ⟨q,hq,by simp [h]⟩
    · exact Or.inr ⟨q,hq,by simp [h]⟩

end

/-! ## The pulls of a source -/

def attemptsOf (id : ℕ) (w : World) : List Attempt := w.attempts.filter (fun a => a.id = id)

/-- When the tick of the next pull lists the sources, the backoff of a pull has passed; and while the poller runs on, the streak
grows by one. -/
def Apart (a b : Attempt) : Prop :=
  a.name ≠ "local" → ∀ k, a.waits = some k →
    b.name = a.name ∧ a.time + backoff k ≤ b.listedAt ∧ (a.boot = b.boot → ∀ m, b.waits = some m → m = k + 1)

/-- The source of a pull is still as the pull left it, where it is still there. -/
structure Waiting (w : World) (a : Attempt) (k : ℕ) : Prop where
  listed : ∀ src ∈ w.todo, src.id = a.id → src.backoffUntil = some (a.time + backoff k) ∧ src.name = a.name
  rows : ∀ r ∈ w.sources.rows, r.id = a.id → r.backoffUntil = some (a.time + backoff k) ∧ r.name = a.name
  streak : a.boot = w.boots → ((∃ src ∈ w.todo, src.id = a.id) ∨ ∃ r ∈ w.sources.rows, r.id = a.id) → w.failStreak a.name = k

/-- The sources as the tick has listed them, next to what has become of them since. -/
structure Listing (w : World) (L : Sources) : Prop where
  seq : L.seq ≤ w.sources.seq
  todo : ∀ src ∈ w.todo, src ∈ L.rows
  rows : ∀ r ∈ w.sources.rows, r.id ≤ L.seq → ∃ q ∈ L.rows, q.id = r.id ∧ q.name = r.name
  attempts : ∀ a ∈ w.attempts, a.id ≤ L.seq

structure Orderly (w : World) : Prop where
  listing : ∃ L, Listing w L
  free : ∀ src ∈ w.todo, Sources.inBackoff w.listedAt src = false
  nodup : (w.todo.map SourceRow.id).Nodup
  past : ∀ a ∈ w.attempts, a.listedAt ≤ a.time ∧ a.boot ≤ w.boots ∧ ∀ k, a.waits = some k → 1 ≤ k
  halfHour : ∀ r ∈ w.sources.rows, ∀ u, r.backoffUntil = some u → ∃ a ∈ w.attempts, a.id = r.id ∧ u ≤ a.time + 30 * minute

/-- The pulls of one source are apart, and its last one is still waited for. -/
structure Spaced (id : ℕ) (w : World) : Prop where
  chain : List.IsChain Apart (attemptsOf id w)
  waiting : ∀ a ∈ (attemptsOf id w).getLast?, a.name ≠ "local" → ∀ k, a.waits = some k → Waiting w a k

theorem backoff_le (k : ℕ) : backoff k ≤ 30 * minute := Nat.mul_le_mul_right _ (Nat.min_le_left _ _)

section
variable {w v : World} {src : SourceRow} {e : Writes} {ms : ℕ} {now : Instant} {p : Pulled}

theorem waitOf_pos {k : ℕ} (h : waitOf w src e p = some k) : 1 ≤ k ∧ k = w.failStreak src.name + 1 := by
  cases p with
  | ok count => cases h
  | raised error => cases h
  | lapiError error =>
    unfold waitOf at h
    split_ifs at h
    cases h
    exact ⟨Nat.succ_le_succ (Nat.zero_le _),rfl⟩

theorem Orderly.admin (h : Orderly w) (op : AdminOp) : Orderly { w with sources := w.sources.perform op } := by
  obtain ⟨⟨L,hL⟩,hfree,hnodup,hpast,hhalf⟩ := h
  refine ⟨⟨L,hL.seq.trans (seq_le_perform _ op),hL.todo,fun r hr hle => ?_,hL.attempts⟩,hfree,hnodup,hpast,fun r hr u hu => ?_⟩
  · rcases rows_perform hr with ⟨hnew,-⟩ | ⟨q,hq,hid,hname,-⟩
    · exact absurd (hle.trans hL.seq) (not_le.mpr hnew)
    · obtain ⟨x,hx,hxid,hxname⟩ := hL.rows q hq (hid ▸ hle)
      exact ⟨x,hx,hxid.trans hid,hxname.trans hname⟩
  · rcases rows_perform hr with ⟨-,hnone⟩ | ⟨q,hq,hid,-,hsame | ⟨-,hnone⟩⟩
    · cases hnone.symm.trans hu
    · obtain ⟨a,ha,haid,hle⟩ := hhalf q hq u (hsame.symm.trans hu)
      exact ⟨a,ha,haid.trans hid,hle⟩
    · cases hnone.symm.trans hu

theorem Orderly.tick (h : Orderly w) (now : Instant) (changed : Bool) : Orderly (w.tick now changed) := by
  obtain ⟨⟨L,hL⟩,-,-,hpast,hhalf⟩ := h
  refine ⟨⟨w.sources,le_rfl,fun src hsrc => Sources.mem_active hsrc,fun r hr _ => ⟨r,hr,rfl,rfl⟩,
    fun a ha => (hL.attempts a ha).trans hL.seq⟩,fun src hsrc => ?_,?_,hpast,hhalf⟩
  · have hcond := (List.mem_filter.mp hsrc).2
    simp only [decide_eq_true_eq, Bool.not_eq_true] at hcond
    exact hcond.2.2
  · exact (List.filter_sublist.map SourceRow.id).nodup w.sources.ids_nodup

theorem Orderly.pull (h : Orderly w) (hsrc : src ∈ w.todo) (hnow : w.listedAt ≤ now) : Orderly (w.pull src e ms now p) := by
  obtain ⟨⟨L,hL⟩,hfree,hnodup,hpast,hhalf⟩ := h
  obtain ⟨hsources,-,-⟩ := @pull_wrote w src e ms now p
  obtain ⟨hlisted,hboots⟩ := pull_frame w src e ms now p
  have hsub : w.todo.erase src ⊆ w.todo := List.erase_subset
  refine ⟨⟨L,hsources.seq ▸ hL.seq,fun q hq => hL.todo q (hsub hq),fun r hr hle => ?_,fun a ha => ?_⟩,
    fun q hq => hlisted ▸ hfree q (hsub hq),(List.erase_sublist.map _).nodup hnodup,fun a ha => ?_,fun r hr u hu => ?_⟩
  · obtain ⟨q,hq,hid,hname,-⟩ := hsources.rows r hr
    obtain ⟨x,hx,hxid,hxname⟩ := hL.rows q hq (hid ▸ hle)
    exact ⟨x,hx,hxid.trans hid,hxname.trans hname⟩
  · rcases List.mem_append.mp ha with ha | ha
    · exact hL.attempts a ha
    · rw [List.mem_singleton.mp ha]
      exact L.ids_le src (hL.todo src hsrc)
  · rcases List.mem_append.mp ha with ha | ha
    · exact hboots ▸ hpast a ha
    · rw [List.mem_singleton.mp ha]
      exact ⟨hnow,hboots.ge,fun k hk => (waitOf_pos hk).1⟩
  · obtain ⟨q,hq,hid,-,hne,heq⟩ := hsources.rows r hr
    by_cases hrid : r.id = src.id
    · have hback := heq hrid
      cases hwait : waitOf w src e p with
      | none =>
        rw [hwait] at hback
        rcases hback with hsame | hnone
        · obtain ⟨a,ha,haid,hle⟩ := hhalf q hq u (hsame.symm.trans hu)
          exact ⟨a,List.mem_append_left _ ha,haid.trans hid,hle⟩
        · cases hnone.symm.trans hu
      | some k =>
        rw [hwait] at hback
        obtain rfl : now + backoff k = u := Option.some_inj.mp (hback.symm.trans hu)
        exact ⟨_,List.mem_append_right _ (List.mem_singleton.mpr rfl),hrid.symm,Nat.add_le_add_left (backoff_le k) now⟩
    · obtain ⟨a,ha,haid,hle⟩ := hhalf q hq u ((hne hrid).symm.trans hu)
      exact ⟨a,List.mem_append_left _ ha,haid.trans hid,hle⟩

theorem Orderly.restart (h : Orderly w) : Orderly w.restart := by
  obtain ⟨⟨L,hL⟩,-,-,hpast,hhalf⟩ := h
  refine ⟨⟨L,hL.seq,nofun,hL.rows,hL.attempts⟩,nofun,List.nodup_nil,fun a ha => ?_,hhalf⟩
  obtain ⟨htime,hboot,hpos⟩ := hpast a ha
  exact ⟨htime,hboot.trans (Nat.le_succ _),hpos⟩

theorem Orderly.step {a : Event} (h : Orderly w) (hs : Step w a v) : Orderly v := by
  cases hs with
  | admin => exact h.admin _
  | tick _ => exact h.tick _ _
  | pull hsrc hnow => exact h.pull hsrc hnow
  | restart => exact h.restart

/-- A row that is listed has the name of every row of its id since. -/
theorem Listing.name_eq {L : Sources} (hL : Listing w L) (hsrc : src ∈ w.todo) {r : SourceRow} (hr : r ∈ w.sources.rows)
    (hid : r.id = src.id) : r.name = src.name := by
  have hmem := hL.todo src hsrc
  obtain ⟨q,hq,hqid,hqname⟩ := hL.rows r hr (hid ▸ L.ids_le src hmem)
  rw [← hqname, List.inj_on_of_nodup_map L.ids_nodup hq hmem (hqid.trans hid)]

theorem Waiting.admin {L : Sources} {a : Attempt} {k : ℕ} (h : Waiting w a k) (hlocal : a.name ≠ "local") (hL : Listing w L)
    (ha : a ∈ w.attempts) (op : AdminOp) : Waiting { w with sources := w.sources.perform op } a k := by
  have hrows : ∀ r ∈ (w.sources.perform op).rows, r.id = a.id →
      ∃ q ∈ w.sources.rows, q.id = a.id ∧ q.name = r.name ∧ (r.backoffUntil = q.backoffUntil ∨ r.name = "local" ∧ r.backoffUntil = none) := by
    intro r hr hid
    rcases rows_perform hr with ⟨hnew,-⟩ | ⟨q,hq,hqid,hrest⟩
    · exact absurd (((hid ▸ hL.attempts a ha).trans hL.seq)) (not_le.mpr hnew)
    · exact ⟨q,hq,hqid.trans hid,hrest⟩
  refine ⟨h.listed,fun r hr hid => ?_,fun hboot hex => h.streak hboot ?_⟩
  · obtain ⟨q,hq,hqid,hname,hback⟩ := hrows r hr hid
    obtain ⟨huntil,hqname⟩ := h.rows q hq hqid
    rcases hback with hsame | ⟨hlocal',-⟩
    · exact ⟨hsame.trans huntil,hname.symm.trans hqname⟩
    · exact absurd (hqname.symm.trans (hname.trans hlocal')) hlocal
  · rcases hex with hex | ⟨r,hr,hid⟩
    · exact Or.inl hex
    · obtain ⟨q,hq,hqid,-⟩ := hrows r hr hid
      exact Or.inr ⟨q,hq,hqid⟩

theorem Waiting.tick {a : Attempt} {k : ℕ} (h : Waiting w a k) (hlocal : a.name ≠ "local") (now : Instant) (changed : Bool) :
    Waiting (w.tick now changed) a k := by
  refine ⟨fun src hsrc => h.rows src (Sources.mem_active hsrc),h.rows,fun hboot hex => ?_⟩
  have hstreak : (w.tick now changed).failStreak a.name = w.failStreak a.name := by
    unfold World.tick
    dsimp only
    split
    · exact Function.update_of_ne hlocal _ _
    · rfl
  refine hstreak.trans (h.streak hboot (Or.inr ?_))
  rcases hex with ⟨q,hq,hid⟩ | hex
  · exact ⟨q,Sources.mem_active hq,hid⟩
  · exact hex

/-- The pull of another source. -/
theorem Waiting.pull_of_ne {L : Sources} {a : Attempt} {k : ℕ} (h : Waiting w a k) (hL : Listing w L) (ha : a ∈ w.attempts)
    (hsrc : src ∈ w.todo) (hne : src.id ≠ a.id) : Waiting (w.pull src e ms now p) a k := by
  obtain ⟨hsources,hothers,-⟩ := @pull_wrote w src e ms now p
  have hsub : w.todo.erase src ⊆ w.todo := List.erase_subset
  refine ⟨fun q hq => h.listed q (hsub hq),fun r hr hid => ?_,fun hboot hex => ?_⟩
  · obtain ⟨q,hq,hqid,hname,hback,-⟩ := hsources.rows r hr
    obtain ⟨huntil,hqname⟩ := h.rows q hq (hqid.trans hid)
    exact ⟨(hback (fun hrid => hne (hrid.symm.trans hid))).trans huntil,hname.symm.trans hqname⟩
  · have hboot' : a.boot = w.boots := hboot.trans (pull_frame w src e ms now p).2
    -- the listed row of this source, whose name is not that of the pulled one
    have hrow : ∃ q ∈ L.rows, q.id = a.id ∧ q.name = a.name := by
      rcases hex with ⟨q,hq,hid⟩ | ⟨r,hr,hid⟩
      · exact ⟨q,hL.todo q (hsub hq),hid,(h.listed q (hsub hq) hid).2⟩
      · obtain ⟨x,hx,hxid,-⟩ := hsources.rows r hr
        obtain ⟨q,hq,hqid,hqname⟩ := hL.rows x hx ((hxid.trans hid) ▸ hL.attempts a ha)
        exact ⟨q,hq,hqid.trans (hxid.trans hid),hqname.trans (h.rows x hx (hxid.trans hid)).2⟩
    obtain ⟨q,hq,hqid,hqname⟩ := hrow
    have hname : a.name ≠ src.name := by
      intro hname
      have heq := List.inj_on_of_nodup_map L.names_nodup hq (hL.todo src hsrc) (hqname.trans hname)
      exact hne (by rw [← hqid, heq])
    refine (hothers a.name hname).trans (h.streak hboot' ?_)
    rcases hex with ⟨q,hq,hid⟩ | ⟨r,hr,hid⟩
    · exact Or.inl ⟨q,hsub hq,hid⟩
    · obtain ⟨x,hx,hxid,-⟩ := hsources.rows r hr
      exact Or.inr ⟨x,hx,hxid.trans hid⟩

/-- The source that has just been pulled. -/
theorem waiting_pulled {k : ℕ} (h : Orderly w) (hsrc : src ∈ w.todo) (hk : waitOf w src e p = some k) :
    Waiting (w.pull src e ms now p) ⟨src.id,src.name,w.boots,w.listedAt,now,waitOf w src e p⟩ k := by
  obtain ⟨L,hL⟩ := h.listing
  obtain ⟨hsources,-,hown⟩ := @pull_wrote w src e ms now p
  refine ⟨fun q hq hid => ?_,fun r hr hid => ?_,fun _ _ => hown k hk⟩
  · have hperm : (w.todo.map SourceRow.id).Perm (src.id :: (w.todo.erase src).map SourceRow.id) :=
      (List.perm_cons_erase hsrc).map SourceRow.id
    exact absurd (List.mem_map.mpr ⟨q,hq,hid⟩) (List.nodup_cons.mp (hperm.nodup_iff.mp h.nodup)).1
  · obtain ⟨q,hq,hqid,hname,-,heq⟩ := hsources.rows r hr
    have hback := heq hid
    rw [hk] at hback
    exact ⟨hback,hname.symm.trans (hL.name_eq hsrc hq (hqid.trans hid))⟩

variable {id : ℕ}

theorem attemptsOf_pull (w : World) (src : SourceRow) (e : Writes) (ms : ℕ) (now : Instant) (p : Pulled) :
    attemptsOf id (w.pull src e ms now p) = attemptsOf id w ++
      if src.id = id then [⟨src.id,src.name,w.boots,w.listedAt,now,waitOf w src e p⟩] else [] := by
  unfold attemptsOf World.pull
  dsimp only
  rw [List.filter_append]
  split
  · next h => simp [h]
  · next h => simp [h]

theorem mem_attemptsOf {a : Attempt} (h : a ∈ attemptsOf id w) : a ∈ w.attempts ∧ a.id = id :=
  ⟨(List.mem_filter.mp h).1,of_decide_eq_true (List.mem_filter.mp h).2⟩

theorem mem_of_mem_getLast? {a : Attempt} (h : a ∈ (attemptsOf id w).getLast?) : a ∈ w.attempts ∧ a.id = id :=
  mem_attemptsOf (List.mem_of_getLast? h)

theorem listed_free {u : Instant} (ho : Orderly w) (hsrc : src ∈ w.todo) (hu : src.backoffUntil = some u) : u ≤ w.listedAt := by
  have hfree := ho.free src hsrc
  unfold Sources.inBackoff at hfree
  rw [hu] at hfree
  exact not_lt.mp (of_decide_eq_false hfree)

theorem Spaced.pull (ho : Orderly w) (h : Spaced src.id w) (hsrc : src ∈ w.todo) : Spaced src.id (w.pull src e ms now p) := by
  have hattempts := @attemptsOf_pull src.id w src e ms now p
  rw [if_pos rfl] at hattempts
  refine ⟨?_,fun a ha hlocal k hk => ?_⟩
  · rw [hattempts]
    refine List.isChain_append.mpr ⟨h.chain,List.isChain_singleton _,fun a ha b hb hlocal k hk => ?_⟩
    obtain rfl := Option.some_inj.mp hb
    have haid : src.id = a.id := (mem_of_mem_getLast? ha).2.symm
    have hwait := h.waiting a ha hlocal k hk
    obtain ⟨huntil,hname⟩ := hwait.listed src hsrc haid
    refine ⟨hname,listed_free ho hsrc huntil,fun hboot m hm => ?_⟩
    rw [(waitOf_pos hm).2, hname, hwait.streak hboot (Or.inl ⟨src,hsrc,haid⟩)]
  · rw [hattempts, List.getLast?_append_cons] at ha
    obtain rfl := Option.some_inj.mp ha
    exact waiting_pulled ho hsrc hk

theorem Spaced.pull_of_ne (ho : Orderly w) (h : Spaced id w) (hsrc : src ∈ w.todo) (hid : src.id ≠ id) :
    Spaced id (w.pull src e ms now p) := by
  obtain ⟨L,hL⟩ := ho.listing
  have hattempts := @attemptsOf_pull id w src e ms now p
  rw [if_neg hid, List.append_nil] at hattempts
  refine ⟨hattempts ▸ h.chain,fun a ha hlocal k hk => ?_⟩
  rw [hattempts] at ha
  obtain ⟨hmem,haid⟩ := mem_of_mem_getLast? ha
  exact (h.waiting a ha hlocal k hk).pull_of_ne hL hmem hsrc (fun h => hid (h.trans haid))

theorem Spaced.step {a : Event} (ho : Orderly w) (h : Spaced id w) (hs : Step w a v) : Spaced id v := by
  obtain ⟨L,hL⟩ := ho.listing
  cases hs with
  | @admin op =>
    exact ⟨h.chain,fun a ha hlocal k hk =>
      (h.waiting a ha hlocal k hk).admin hlocal hL (mem_of_mem_getLast? ha).1 op⟩
  | tick _ => exact ⟨h.chain,fun a ha hlocal k hk => (h.waiting a ha hlocal k hk).tick hlocal _ _⟩
  | restart =>
    refine ⟨h.chain,fun a ha hlocal k hk => ⟨nofun,(h.waiting a ha hlocal k hk).rows,fun hboot => ?_⟩⟩
    have hle := (ho.past a (mem_of_mem_getLast? ha).1).2.1
    rw [hboot] at hle
    exact absurd hle (Nat.not_succ_le_self w.boots)
  | @pull src p e ms now hsrc hnow =>
    by_cases hid : src.id = id
    · subst hid
      exact h.pull ho hsrc
    · exact h.pull_of_ne ho hsrc hid

end

/-! ## Runs -/

/-- A poller that has pulled nothing yet, over sources that wait for nothing. -/
structure Fresh (w : World) : Prop where
  todo : w.todo = []
  attempts : w.attempts = []
  free : ∀ r ∈ w.sources.rows, r.backoffUntil = none

section
variable {init w : World} {ts : List Move}

theorem Fresh.orderly (h : Fresh w) : Orderly w := by
  obtain ⟨htodo,hattempts,hfree⟩ := h
  refine ⟨⟨w.sources,le_rfl,?_,fun r hr _ => ⟨r,hr,rfl,rfl⟩,?_⟩,?_,?_,?_,fun r hr u hu => ?_⟩
  · rw [htodo]
    exact nofun
  · rw [hattempts]
    exact nofun
  · rw [htodo]
    exact nofun
  · rw [htodo]
    exact List.nodup_nil
  · rw [hattempts]
    exact nofun
  · cases (hfree r hr).symm.trans hu

theorem orderly_of_trace (h : Trace Step init ts w) (h0 : Fresh init) : Orderly w :=
  (h.always h0.orderly (fun _ hs hI => hI.step hs)).1

/-- Half an hour after its last pull at the latest a source is pulled again, unless it is paused or disabled. -/
theorem source_listed_within_half_hour {r : SourceRow} {now : Instant} (h : Trace Step init ts w) (h0 : Fresh init)
    (hr : r ∈ w.sources.rows) (henabled : r.enabled = true) (hpaused : r.paused = false)
    (hnow : ∀ a ∈ attemptsOf r.id w, a.time + 30 * minute ≤ now) (connectionChanged : Bool) :
    r ∈ (w.tick now connectionChanged).todo := by
  have hfree : Sources.inBackoff now r = false := by
    unfold Sources.inBackoff
    cases hu : r.backoffUntil with
    | none => rfl
    | some u =>
      obtain ⟨a,ha,hid,hle⟩ := (orderly_of_trace h h0).halfHour r hr u hu
      have ha' : a ∈ attemptsOf r.id w := List.mem_filter.mpr ⟨ha,decide_eq_true hid⟩
      exact decide_eq_false (not_lt.mpr (hle.trans (hnow a ha')))
  refine List.mem_filter.mpr ⟨hr,decide_eq_true ⟨henabled,?_,?_⟩⟩
  · rw [hpaused]
    exact Bool.false_ne_true
  · rw [hfree]
    exact Bool.false_ne_true

end

/-! ## A source that fails twice -/

def edgeAgain : World := (edgeFailed.tick (2 * minute) false).pull failedRow { recordedAt := 2 } 3 (2 * minute) (.lapiError "HTTP 502")

def againRow : SourceRow :=
  { failedRow with lastPullAt := some (isoformat 2), backoffUntil := some (4 * minute) }

theorem edgeStart_fresh : Fresh edgeStart := ⟨rfl,rfl,by decide⟩

theorem edgeAgain_trace : ∃ ts, Trace Step edgeStart ts edgeAgain := by
  have h1 : Step edgeStart (.tick 0 false) (edgeStart.tick 0 false) := .tick rfl
  have h2 : Step (edgeStart.tick 0 false) _ edgeFailed := .pull (by decide) (by decide)
  have h3 : Step edgeFailed (.tick (2 * minute) false) (edgeFailed.tick (2 * minute) false) := .tick (by decide)
  have h4 : Step (edgeFailed.tick (2 * minute) false) _ edgeAgain := .pull (by decide) (by decide)
  exact ⟨_,(((Trace.single h1).snoc h2).snoc h3).snoc h4⟩

theorem source_listed_within_half_hour_edge : againRow ∈ (edgeAgain.tick (32 * minute) false).todo := by
  obtain ⟨ts,h⟩ := edgeAgain_trace
  exact source_listed_within_half_hour h edgeStart_fresh (by decide) rfl rfl (by decide) false

end Protek.Federation.Health
