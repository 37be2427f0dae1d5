import Mathlib.Algebra.Order.Field.Rat
import Protek.Foundation.BatchedDrain
import Protek.Foundation.Ranking
import Protek.Policy.Writers

/-! # The retention sweep

The caps on the tombstones and on the push log: a cutoff id is computed once for each
table, and the rows up to it are deleted in batches, oldest first, until none is left or
the time is up. A tombstone that a pending approval names is passed over.
-/
namespace Protek.Retention
open Foundation Foundation.PyText Foundation.BatchedDrain Protek.Store
open Protek.Policy (settingInt cutoffId pendingDecisionIds deleteBatch)

/-- A row of `mt_pushes`. -/
structure PushRow where
  id : ℕ
  syncEventId : ℤ
  ip : String
  action : String
  success : ℤ
  error : String
  deriving DecidableEq, Repr

/-- The two tables, each with its primary key. -/
structure Tables where
  db : Db
  ids : (db.decisions.rows.map DecisionRow.id).Nodup
  mtPushes : KeyedTable ℕ PushRow PushRow.id

structure PruneResult where
  status : String
  decisions : ℕ
  mtPushes : ℕ
  truncated : Option Bool := none
  error : Option String := none
  deriving DecidableEq, Repr

def tombstones (s : Tables) : List DecisionRow := s.db.decisions.rows.filter (fun r => !r.active)

/-- The tombstones that a pending approval names. -/
def pinned (s : Tables) : List DecisionRow := (tombstones s).filter (fun r => (r.id : ℤ) ∈ pendingDecisionIds s.db)

/-- `LIMIT size` over so many rows; a negative limit is none. -/
def limit (size : ℤ) (rows : ℕ) : ℕ := if size < 0 then rows else size.toNat

theorem ids_deleteBatch {db : Db} (h : (db.decisions.rows.map DecisionRow.id).Nodup) (cutoff size : ℕ) :
    ((deleteBatch db cutoff size).decisions.rows.map DecisionRow.id).Nodup :=
  (List.filter_sublist.map DecisionRow.id).nodup h

/-- The DELETE on `decisions`, with the count of its rows. -/
def deleteDecisions (cutoff : ℕ) (size : ℤ) (s : Tables) : ℕ × Tables :=
  let db := deleteBatch s.db cutoff (limit size s.db.decisions.rows.length)
  (s.db.decisions.rows.length - db.decisions.rows.length,{ s with db := db, ids := ids_deleteBatch s.ids _ _ })

/-- `SELECT id … WHERE p ORDER BY id LIMIT n`. -/
def oldestIds {α : Type*} (id : α → ℕ) (p : α → Bool) (n : ℕ) (rows : List α) : List ℕ :=
  (((rows.filter p).map id).insertionSort (fun a b => a ≤ b)).take n

/-- The DELETE on `mt_pushes`. -/
def deletePushes (cutoff : ℕ) (size : ℤ) (s : Tables) : ℕ × Tables :=
  let ids := oldestIds PushRow.id (fun p => p.id ≤ cutoff) (limit size s.mtPushes.rows.length) s.mtPushes.rows
  let pushes := s.mtPushes.remove (fun p => p.id ∈ ids)
  (s.mtPushes.rows.length - pushes.rows.length,{ s with mtPushes := pushes })

/-- `_cutoff_id` on `mt_pushes`. -/
def pushCutoffId (s : Tables) (cap : ℕ) : Option ℕ := Ranking.cutoff (s.mtPushes.rows.map PushRow.id) cap

def fitsInt64 : ℤ → Bool
  | .ofNat n => n < 9223372036854775808
  | .negSucc n => n < 9223372036854775808

/-- A parameter that is no 64-bit integer cannot be bound. -/
def bind (n : ℤ) (m : Moment ℚ) : Moment ℚ :=
  if fitsInt64 n then m else { m with error := some "Python int too large to convert to SQLite INTEGER" }

/-- `_drain` up to a cutoff; without one nothing is deleted. -/
def drainTo (world : ℕ → Moment ℚ) (deadline : ℚ) (delete : ℕ → ℤ → Tables → ℕ × Tables) (size : ℤ) (fuel k : ℕ)
    (cutoff : Option ℕ) (s : Tables) : Option (Drained Tables) :=
  match cutoff with
  | none => some ⟨.empty,0,k,s⟩
  | some c => drain (fun i => bind size (world i)) deadline (delete c size) fuel k 0 s

/-- `str(e)[:200]`. -/
def errorText (text : String) : String := String.ofList (text.toList.take 200)

section
variable (T : CharTable) (world : ℕ → Moment ℚ)

/-- The second half of the sweep, with what the first one removed. -/
def prunePushes (fuel k : ℕ) (size : ℤ) (cap : ℕ) (deadline : ℚ) (removed : ℕ) (s : Tables) : Option (PruneResult × Tables) :=
  match (bind cap (world k)).error with
  | some text => some (⟨"error",removed,0,some false,some (errorText text)⟩,s)
  | none =>
    (drainTo world deadline deletePushes size fuel (k + 1) (pushCutoffId s cap) s).map (fun m =>
      match m.stop with
      | .failed text => (⟨"error",removed,0,some false,some (errorText text)⟩,m.state)
      | _ => (⟨"ok",removed,m.removed,some (deadline ≤ (world m.next).now),none⟩,m.state))

def batchSize (s : Tables) (batch : Option ℤ) : ℤ := batch.getD (settingInt T s.db "retention.batch_size" 5000)

def decisionsCap (s : Tables) : ℕ := settingInt T s.db "retention.decisions_tombstone_cap" 500000

def pushesCap (s : Tables) : ℕ := settingInt T s.db "retention.mt_pushes_cap" 500000

/-- `prune`; the world is read at one moment after the other, and the fuel bounds the batches of a drain. -/
def prune (fuel : ℕ) (s : Tables) (maxSeconds batch : Option ℤ) : Option (PruneResult × Tables) :=
  if orElse (s.db.settings "retention.enabled") "1" ≠ "1" then some (⟨"disabled",0,0,none,none⟩,s)
  else
    let deadline := (world 0).now + (maxSeconds.getD (settingInt T s.db "retention.max_seconds" 15) : ℤ)
    match (bind (decisionsCap T s) (world 1)).error with
    | some text => some (⟨"error",0,0,some false,some (errorText text)⟩,s)
    | none =>
      match drainTo world deadline deleteDecisions (batchSize T s batch) fuel 2 (cutoffId s.db (decisionsCap T s)) s with
      | none => none
      | some d =>
        match d.stop with
        | .failed text => some (⟨"error",0,0,some false,some (errorText text)⟩,d.state)
        | _ => prunePushes world fuel d.next (batchSize T s batch) (pushesCap T s) deadline d.removed d.state

end

/-! ## What a batch deletes -/

section
variable {α : Type*} {id : α → ℕ} {p : α → Bool} {n : ℕ} {rows : List α} {r : α}

theorem exists_of_mem_oldestIds {i : ℕ} (h : i ∈ oldestIds id p n rows) : ∃ r ∈ rows, p r = true ∧ id r = i := by
  obtain ⟨r,hr,rfl⟩ := List.mem_map.mp ((List.mem_insertionSort _).mp (List.mem_of_mem_take h))
  obtain ⟨hmem,hp⟩ := List.mem_filter.mp hr
  exact ⟨r,hmem,hp,rfl⟩

/-- A limit of at least one takes an id as long as there is one. -/
theorem exists_mem_oldestIds (hn : 0 < n) (hr : r ∈ rows) (hp : p r = true) : ∃ i, i ∈ oldestIds id p n rows := by
  have hmem : id r ∈ ((rows.filter p).map id).insertionSort (fun a b => a ≤ b) :=
    (List.mem_insertionSort _).mpr (List.mem_map_of_mem (List.mem_filter.mpr ⟨hr,hp⟩))
  unfold oldestIds
  cases hl : ((rows.filter p).map id).insertionSort (fun a b => a ≤ b) with
  | nil =>
    rw [hl] at hmem
    cases hmem
  | cons i rest =>
    obtain ⟨m,rfl⟩ : ∃ m, n = m + 1 := ⟨n - 1,by omega⟩
    exact ⟨i,List.mem_cons_self⟩

/-- An empty batch deletes no row. -/
theorem not_of_length_eq {κ : Type*} {key : α → κ} {t : KeyedTable κ α key}
    (h : t.rows.length - (t.remove p).rows.length = 0) (hr : r ∈ t.rows) : p r = false := by
  have hsub : (t.rows.filter (fun r => !p r)).Sublist t.rows := List.filter_sublist
  have hle := hsub.length_le
  have hlen : (t.rows.filter (fun r => !p r)).length = t.rows.length := by
    change t.rows.length - (t.rows.filter (fun r => !p r)).length = 0 at h
    omega
  rw [← hsub.eq_of_length hlen] at hr
  simpa using (List.mem_filter.mp hr).2

end

theorem limit_pos {size : ℤ} (hsize : 1 ≤ size) (n : ℕ) : 0 < limit size n := by
  rw [limit, if_neg (by omega)]
  omega

/-- The rows that a batch on `decisions` may delete. -/
def Deletable (db : Db) (c : ℕ) (r : DecisionRow) : Bool := !r.active ∧ r.id ≤ c ∧ (r.id : ℤ) ∉ pendingDecisionIds db

section
variable {s t : Tables} {c : ℕ} {size : ℤ} {r : DecisionRow}

theorem mem_deleteDecisions : r ∈ (deleteDecisions c size s).2.db.decisions.rows ↔ r ∈ s.db.decisions.rows ∧
    ¬ (r.active = false ∧ r.id ∈ oldestIds DecisionRow.id (Deletable s.db c) (limit size s.db.decisions.rows.length)
      s.db.decisions.rows) := by
  have hbatch : (deleteDecisions c size s).2.db.decisions = s.db.decisions.remove (fun r => !r.active ∧
      r.id ∈ oldestIds DecisionRow.id (Deletable s.db c) (limit size s.db.decisions.rows.length) s.db.decisions.rows) := rfl
  rw [hbatch, KeyedTable.mem_remove]
  simp only [Bool.not_eq_true', decide_eq_false_iff_not]

/-- What the sweep of the decisions does to the tables: some tombstones up to the cutoff that no pending approval
names are gone. -/
structure SweptDecisions (c : ℕ) (s t : Tables) : Prop where
  rest : t.db = { s.db with decisions := t.db.decisions }
  pushes : t.mtPushes = s.mtPushes
  sublist : t.db.decisions.rows.Sublist s.db.decisions.rows
  kept : ∀ r ∈ s.db.decisions.rows, Deletable s.db c r = false → r ∈ t.db.decisions.rows

theorem SweptDecisions.refl (c : ℕ) (s : Tables) : SweptDecisions c s s := ⟨rfl,rfl,List.Sublist.refl _,fun _ hr _ => hr⟩

theorem SweptDecisions.pending (h : SweptDecisions c s t) : pendingDecisionIds t.db = pendingDecisionIds s.db := by
  rw [h.rest]
  rfl

theorem SweptDecisions.deleteDecisions (h : SweptDecisions c s t) : SweptDecisions c s (deleteDecisions c size t).2 where
  rest := by
    exact congrArg (fun db : Db => { db with decisions := (Retention.deleteDecisions c size t).2.db.decisions }) h.rest
  pushes := h.pushes
  sublist := List.filter_sublist.trans h.sublist
  kept r hr hnot := by
    refine mem_deleteDecisions.mpr ⟨h.kept r hr hnot,fun ⟨hact,hmem⟩ => ?_⟩
    obtain ⟨q,-,hq,hid⟩ := exists_of_mem_oldestIds hmem
    have hsame : Deletable s.db c r = Deletable t.db c q := by
      have hqact : q.active = false := by
        simp only [Deletable, decide_eq_true_eq, Bool.not_eq_true'] at hq
        exact hq.1
      rw [Deletable, Deletable, h.pending, hid, hact, hqact]
    rw [hsame, hq] at hnot
    cases hnot

/-- After an empty batch no tombstone is left that may be deleted. -/
theorem not_deletable_of_empty (hsize : 1 ≤ size) (h : (deleteDecisions c size s).1 = 0) (hr : r ∈ s.db.decisions.rows) :
    Deletable s.db c r = false := by
  by_contra hdel
  obtain ⟨i,hi⟩ := @exists_mem_oldestIds _ DecisionRow.id _ _ _ _ (limit_pos hsize s.db.decisions.rows.length) hr
    (Bool.not_eq_false _ ▸ hdel)
  obtain ⟨q,hq,hqdel,rfl⟩ := exists_of_mem_oldestIds hi
  have hnot := not_of_length_eq h hq
  have hqact : q.active = false := by
    simp only [Deletable, decide_eq_true_eq, Bool.not_eq_true'] at hqdel
    exact hqdel.1
  simp only [hqact, decide_eq_false_iff_not] at hnot
  exact hnot ⟨rfl,hi⟩

/-! ## The decisions after a drain -/

/-- How many tombstones are newer than a row. -/
def newerTombstones (s : Tables) (r : DecisionRow) : ℕ := ((tombstones s).filter (fun q => r.id < q.id)).length

theorem cutoffId_eq (cap : ℕ) : cutoffId s.db cap = Ranking.cutoff ((tombstones s).map DecisionRow.id) cap := rfl

theorem ids_tombstones (s : Tables) : ((tombstones s).map DecisionRow.id).Nodup :=
  (List.filter_sublist.map DecisionRow.id).nodup s.ids

theorem length_filter_ids (a : ℕ) :
    (((tombstones s).map DecisionRow.id).filter (fun i => a < i)).length = ((tombstones s).filter (fun q => a < q.id)).length := by
  rw [List.filter_map, List.length_map]
  rfl

/-- A tombstone with fewer than `cap` newer ones lies above the cutoff. -/
theorem above_cutoff {cap : ℕ} (hc : cutoffId s.db cap = some c) (hnew : newerTombstones s r < cap) : c < r.id := by
  by_contra hle
  have := Ranking.le_length_above (ids_tombstones s) (cutoffId_eq cap ▸ hc) (Nat.not_lt.mp hle)
  rw [length_filter_ids] at this
  exact absurd this (Nat.not_le.mpr hnew)

/-- Where nothing is left to delete, the tombstones are the ones above the cutoff and pinned ones. -/
theorem length_tombstones_le {cap : ℕ} (hc : cutoffId s.db cap = some c) (h : SweptDecisions c s t)
    (hnone : ∀ r ∈ t.db.decisions.rows, Deletable t.db c r = false) : (tombstones t).length ≤ cap + (pinned t).length := by
  have hsplit := List.length_eq_length_filter_add (l := tombstones t) (fun r => c < r.id)
  have habove : ((tombstones t).filter (fun r => c < r.id)).length ≤ cap := by
    have hsub : ((tombstones t).filter (fun r => c < r.id)).Sublist ((tombstones s).filter (fun r => c < r.id)) :=
      (h.sublist.filter _).filter _
    refine hsub.length_le.trans ?_
    rw [← length_filter_ids]
    exact Ranking.length_above_le (cutoffId_eq cap ▸ hc)
  have hbelow : ((tombstones t).filter (fun r => !decide (c < r.id))).length ≤ (pinned t).length := by
    rw [pinned, ← List.countP_eq_length_filter, ← List.countP_eq_length_filter]
    refine List.countP_mono_left (fun r hr hle => ?_)
    obtain ⟨hmem,hact⟩ := List.mem_filter.mp hr
    have hdel := hnone r hmem
    simp only [Deletable, decide_eq_false_iff_not] at hdel
    simp only [Bool.not_eq_true', decide_eq_false_iff_not, Nat.not_lt] at hle
    by_contra hpin
    exact hdel ⟨hact,hle,fun hmem => hpin (decide_eq_true hmem)⟩
  omega

end

/-! ## The push log after a drain -/

section
variable {s t : Tables} {c cap : ℕ} {size : ℤ} {p : PushRow}

/-- Some rows of the push log up to the cutoff are gone. -/
structure SweptPushes (c : ℕ) (s t : Tables) : Prop where
  db : t.db = s.db
  sublist : t.mtPushes.rows.Sublist s.mtPushes.rows
  kept : ∀ p ∈ s.mtPushes.rows, c < p.id → p ∈ t.mtPushes.rows

theorem SweptPushes.refl (c : ℕ) (s : Tables) : SweptPushes c s s := ⟨rfl,List.Sublist.refl _,fun _ hp _ => hp⟩

theorem mem_deletePushes : p ∈ (deletePushes c size s).2.mtPushes.rows ↔ p ∈ s.mtPushes.rows ∧
    p.id ∉ oldestIds PushRow.id (fun p => p.id ≤ c) (limit size s.mtPushes.rows.length) s.mtPushes.rows := by
  rw [deletePushes]
  dsimp only
  rw [KeyedTable.mem_remove, decide_eq_false_iff_not]

theorem SweptPushes.deletePushes (h : SweptPushes c s t) : SweptPushes c s (deletePushes c size t).2 where
  db := h.db
  sublist := List.filter_sublist.trans h.sublist
  kept p hp hlt := by
    refine mem_deletePushes.mpr ⟨h.kept p hp hlt,fun hmem => ?_⟩
    obtain ⟨q,-,hq,hid⟩ := exists_of_mem_oldestIds hmem
    have hle : q.id ≤ c := of_decide_eq_true hq
    omega

theorem not_below_of_empty (hsize : 1 ≤ size) (h : (deletePushes c size s).1 = 0) (hp : p ∈ s.mtPushes.rows) : c < p.id := by
  by_contra hle
  obtain ⟨i,hi⟩ := @exists_mem_oldestIds _ PushRow.id (fun p => p.id ≤ c) _ _ _ (limit_pos hsize s.mtPushes.rows.length) hp
    (decide_eq_true (Nat.not_lt.mp hle))
  obtain ⟨q,hq,-,rfl⟩ := exists_of_mem_oldestIds hi
  have hnot := not_of_length_eq h hq
  exact of_decide_eq_false hnot hi

/-- How many rows of the push log are newer than a row. -/
def newerPushes (s : Tables) (p : PushRow) : ℕ := (s.mtPushes.rows.filter (fun q => p.id < q.id)).length

theorem length_filter_pushIds (a : ℕ) :
    ((s.mtPushes.rows.map PushRow.id).filter (fun i => a < i)).length = (s.mtPushes.rows.filter (fun q => a < q.id)).length := by
  rw [List.filter_map, List.length_map]
  rfl

theorem push_above_cutoff (hc : pushCutoffId s cap = some c) (hnew : newerPushes s p < cap) : c < p.id := by
  by_contra hle
  have := Ranking.le_length_above s.mtPushes.nodup hc (Nat.not_lt.mp hle)
  rw [length_filter_pushIds] at this
  exact absurd this (Nat.not_le.mpr hnew)

theorem length_pushes_le (hc : pushCutoffId s cap = some c) (h : SweptPushes c s t) (hnone : ∀ p ∈ t.mtPushes.rows, c < p.id) :
    t.mtPushes.rows.length ≤ cap := by
  have hall : t.mtPushes.rows.filter (fun p => c < p.id) = t.mtPushes.rows :=
    List.filter_eq_self.mpr (fun p hp => decide_eq_true (hnone p hp))
  rw [← hall]
  refine (h.sublist.filter _).length_le.trans ?_
  rw [← length_filter_pushIds]
  exact Ranking.length_above_le hc

end

/-! ## What a drain leaves -/

section
variable {world : ℕ → Moment ℚ} {deadline : ℚ} {size : ℤ} {fuel k cap : ℕ} {s : Tables} {d : Drained Tables}

@[simp] theorem now_bind (n : ℤ) (m : Moment ℚ) : (bind n m).now = m.now := by
  unfold bind
  split <;> rfl

/-- The moments of a drain, and the reading it was stopped by. -/
structure Timed (world : ℕ → Moment ℚ) (deadline : ℚ) (k : ℕ) (d : Drained Tables) : Prop where
  le_next : k ≤ d.next
  late : d.stop = .deadline → ∃ i < d.next, deadline ≤ (world i).now

theorem drainTo_spec {delete : ℕ → ℤ → Tables → ℕ × Tables} {cutoff : Option ℕ} {I : ℕ → Tables → Prop}
    (h : drainTo world deadline delete size fuel k cutoff s = some d) (hI : ∀ c, I c s)
    (hstep : ∀ c t, I c t → I c (delete c size t).2) :
    Timed world deadline k d ∧ ((cutoff = none ∧ d.state = s) ∨ ∃ c, cutoff = some c ∧ I c d.state ∧
      (d.stop = .empty → ∃ t, I c t ∧ (delete c size t).1 = 0 ∧ d.state = (delete c size t).2)) := by
  cases cutoff with
  | none =>
    cases h
    exact ⟨⟨Nat.le_refl k,fun hstop => by cases hstop⟩,Or.inl ⟨rfl,rfl⟩⟩
  | some c =>
    obtain ⟨hstate,hnext,hlate,hempty⟩ := drain_spec (I := I c) h (hI c) (hstep c)
    refine ⟨⟨hnext.le,fun hstop => ⟨d.next - 1,by omega,?_⟩⟩,Or.inr ⟨c,rfl,hstate,hempty⟩⟩
    have := hlate hstop
    rwa [now_bind] at this

theorem drainTo_decisions (h : drainTo world deadline deleteDecisions size fuel k (cutoffId s.db cap) s = some d) :
    Timed world deadline k d ∧ d.state.db = { s.db with decisions := d.state.db.decisions } ∧
      d.state.mtPushes = s.mtPushes ∧
      (∀ r ∈ s.db.decisions.rows, r.active = true ∨ newerTombstones s r < cap ∨ (r.id : ℤ) ∈ pendingDecisionIds s.db →
        r ∈ d.state.db.decisions.rows) ∧
      (d.stop = .empty → 1 ≤ size → (tombstones d.state).length ≤ cap + (pinned d.state).length) := by
  obtain ⟨htimed,⟨hnone,hstate⟩ | ⟨c,hc,hswept,hempty⟩⟩ := drainTo_spec (I := fun c t => SweptDecisions c s t) h
    (fun c => .refl c s) (fun c t => SweptDecisions.deleteDecisions)
  · refine ⟨htimed,by rw [hstate],by rw [hstate],fun r hr _ => by rwa [hstate],fun _ _ => ?_⟩
    have hle := Ranking.length_le_of_cutoff (cutoffId_eq cap ▸ hnone)
    rw [List.length_map] at hle
    rw [hstate]
    exact hle.trans (Nat.le_add_right _ _)
  · refine ⟨htimed,hswept.rest,hswept.pushes,fun r hr hkeep => hswept.kept r hr ?_,fun hstop hsize => ?_⟩
    · simp only [Deletable, decide_eq_false_iff_not]
      rintro ⟨hdead,hle,hfree⟩
      rcases hkeep with hact | hnew | hpin
      · rw [hact] at hdead
        cases hdead
      · exact absurd hle (Nat.not_le.mpr (above_cutoff hc hnew))
      · exact hfree hpin
    · obtain ⟨t,ht,hzero,hstate⟩ := hempty hstop
      refine length_tombstones_le hc hswept (fun r hr => ?_)
      rw [hstate] at hr ⊢
      have hold := (mem_deleteDecisions.mp hr).1
      have hdel := not_deletable_of_empty hsize hzero hold
      rwa [Deletable, (@SweptDecisions.deleteDecisions s t c size ht).pending, ← ht.pending]

theorem drainTo_pushes (h : drainTo world deadline deletePushes size fuel k (pushCutoffId s cap) s = some d) :
    Timed world deadline k d ∧ d.state.db = s.db ∧
      (∀ p ∈ s.mtPushes.rows, newerPushes s p < cap → p ∈ d.state.mtPushes.rows) ∧
      (d.stop = .empty → 1 ≤ size → d.state.mtPushes.rows.length ≤ cap) := by
  obtain ⟨htimed,⟨hnone,hstate⟩ | ⟨c,hc,hswept,hempty⟩⟩ := drainTo_spec (I := fun c t => SweptPushes c s t) h
    (fun c => .refl c s) (fun c t => SweptPushes.deletePushes)
  · refine ⟨htimed,by rw [hstate],fun p hp _ => by rwa [hstate],fun _ _ => ?_⟩
    have hle := Ranking.length_le_of_cutoff hnone
    rw [List.length_map] at hle
    rwa [hstate]
  · refine ⟨htimed,hswept.db,fun p hp hnew => hswept.kept p hp (push_above_cutoff hc hnew),fun hstop hsize => ?_⟩
    obtain ⟨t,ht,hzero,hstate⟩ := hempty hstop
    refine length_pushes_le hc hswept (fun p hp => ?_)
    rw [hstate] at hp
    exact not_below_of_empty hsize hzero (mem_deletePushes.mp hp).1

theorem drainTo_terminates {delete : ℕ → ℤ → Tables → ℕ × Tables} (rows : Tables → ℕ)
    (hdec : ∀ c s, (delete c size s).1 ≠ 0 → rows (delete c size s).2 < rows s) (k : ℕ) (cutoff : Option ℕ) (s : Tables) :
    ∃ d, ∀ fuel, rows s < fuel → drainTo world deadline delete size fuel k cutoff s = some d := by
  cases cutoff with
  | none => exact ⟨_,fun _ _ => rfl⟩
  | some c =>
    obtain ⟨d,hd⟩ := Option.isSome_iff_exists.mp
      (@drain_isSome _ _ _ (fun i => bind size (world i)) deadline (delete c size) _ k 0 s rows (hdec c)
        (Nat.lt_succ_self (rows s)))
    exact ⟨d,fun fuel hfuel => drain_of_le hd hfuel⟩

end

/-! ## The sweep -/

section
variable {T : CharTable} {world : ℕ → Moment ℚ} {deadline : ℚ} {size : ℤ} {fuel k cap removed : ℕ} {s t : Tables}
  {r : PruneResult} {maxSeconds batch : Option ℤ}

/-- How the second half of the sweep goes on from its cutoff statement and its drain. -/
theorem prunePushes_of_error {text : String} (h : (bind cap (world k)).error = some text) :
    prunePushes world fuel k size cap deadline removed s = some (⟨"error",removed,0,some false,some (errorText text)⟩,s) := by
  unfold prunePushes
  rw [h]

/-- The answer of the second half, once its drain is through. -/
def pushesAnswer (world : ℕ → Moment ℚ) (deadline : ℚ) (removed : ℕ) (m : Drained Tables) : PruneResult × Tables :=
  match m.stop with
  | .failed text => (⟨"error",removed,0,some false,some (errorText text)⟩,m.state)
  | _ => (⟨"ok",removed,m.removed,some (deadline ≤ (world m.next).now),none⟩,m.state)

theorem prunePushes_of_drain (h : (bind cap (world k)).error = none) :
    prunePushes world fuel k size cap deadline removed s =
      (drainTo world deadline deletePushes size fuel (k + 1) (pushCutoffId s cap) s).map (pushesAnswer world deadline removed) := by
  unfold prunePushes
  rw [h]
  rfl

theorem prunePushes_terminates (k cap : ℕ) (deadline : ℚ) (removed : ℕ) (size : ℤ) (s : Tables) :
    ∃ p, ∀ fuel, s.mtPushes.rows.length < fuel → prunePushes world fuel k size cap deadline removed s = some p := by
  cases herr : (bind cap (world k)).error with
  | some text => exact ⟨(⟨"error",removed,0,some false,some (errorText text)⟩,s),fun fuel _ => prunePushes_of_error herr⟩
  | none =>
    obtain ⟨m,hm⟩ := @drainTo_terminates world deadline size deletePushes
      (fun s => s.mtPushes.rows.length) (fun c s hne => by
        rw [deletePushes] at hne ⊢
        dsimp only at hne ⊢
        omega) (k + 1) (pushCutoffId s cap) s
    refine ⟨pushesAnswer world deadline removed m,fun fuel hfuel => ?_⟩
    rw [prunePushes_of_drain herr, hm fuel hfuel]
    rfl

/-- What the second half does to the tables, and what its answer says. -/
theorem prunePushes_spec (hclock : Monotone (fun i => (world i).now))
    (h : prunePushes world fuel k size cap deadline removed s = some (r,t)) :
    t.db = s.db ∧ (∀ p ∈ s.mtPushes.rows, newerPushes s p < cap → p ∈ t.mtPushes.rows) ∧
      (r.status = "ok" → r.truncated = some false → (∀ i < k, (world i).now < deadline) ∧
        (1 ≤ size → t.mtPushes.rows.length ≤ cap)) := by
  cases herr : (bind cap (world k)).error with
  | some text =>
    rw [prunePushes_of_error herr] at h
    cases h
    exact ⟨rfl,fun p hp _ => hp,fun hok => by simp at hok⟩
  | none =>
    rw [prunePushes_of_drain herr] at h
    obtain ⟨m,hm,hanswer⟩ := Option.map_eq_some_iff.mp h
    obtain ⟨htimed,hdb,hkept,hempty⟩ := drainTo_pushes hm
    have hstate : m.state = t := by
      unfold pushesAnswer at hanswer
      split at hanswer <;> exact congrArg Prod.snd hanswer
    subst hstate
    refine ⟨hdb,hkept,fun hok hend => ?_⟩
    have hbefore : (world m.next).now < deadline ∧ ∀ text, m.stop ≠ .failed text := by
      unfold pushesAnswer at hanswer
      split at hanswer
      · cases hanswer
        simp at hok
      · next hfail =>
        cases hanswer
        exact ⟨not_le.mp (of_decide_eq_false (Option.some.inj hend)),hfail⟩
    have hearlier : ∀ i < m.next, (world i).now < deadline := fun i hi => (hclock hi.le).trans_lt hbefore.1
    refine ⟨fun i hi => hearlier i (hi.trans htimed.le_next),fun hsize => hempty ?_ hsize⟩
    cases hstop : m.stop with
    | empty => rfl
    | failed text => exact absurd hstop (hbefore.2 text)
    | deadline =>
      obtain ⟨i,hi,hlate⟩ := htimed.late hstop
      exact absurd hlate (not_le.mpr (hearlier i hi))

/-- `deadline` of the sweep. -/
def deadlineOf (T : CharTable) (world : ℕ → Moment ℚ) (s : Tables) (maxSeconds : Option ℤ) : ℚ :=
  (world 0).now + (maxSeconds.getD (settingInt T s.db "retention.max_seconds" 15) : ℤ)

/-- The sweep of the second table, where the drain of the first one did not fail. -/
def afterDecisions (T : CharTable) (world : ℕ → Moment ℚ) (fuel : ℕ) (s : Tables) (maxSeconds batch : Option ℤ)
    (d : Drained Tables) : Option (PruneResult × Tables) :=
  match d.stop with
  | .failed text => some (⟨"error",0,0,some false,some (errorText text)⟩,d.state)
  | _ => prunePushes world fuel d.next (batchSize T s batch) (pushesCap T s) (deadlineOf T world s maxSeconds) d.removed d.state

theorem prune_of_error (hon : orElse (s.db.settings "retention.enabled") "1" = "1") {text : String}
    (h : (bind (decisionsCap T s) (world 1)).error = some text) :
    prune T world fuel s maxSeconds batch = some (⟨"error",0,0,some false,some (errorText text)⟩,s) := by
  unfold prune
  rw [if_neg (not_not.mpr hon)]
  dsimp only
  rw [h]

theorem prune_of_drain (hon : orElse (s.db.settings "retention.enabled") "1" = "1")
    (h : (bind (decisionsCap T s) (world 1)).error = none) : prune T world fuel s maxSeconds batch =
      (drainTo world (deadlineOf T world s maxSeconds) deleteDecisions (batchSize T s batch) fuel 2
        (cutoffId s.db (decisionsCap T s)) s).bind (afterDecisions T world fuel s maxSeconds batch) := by
  unfold prune
  rw [if_neg (not_not.mpr hon)]
  dsimp only
  rw [h]
  dsimp only
  rw [← deadlineOf]
  cases drainTo world (deadlineOf T world s maxSeconds) deleteDecisions (batchSize T s batch) fuel 2
    (cutoffId s.db (decisionsCap T s)) s <;> rfl

/-- The sweep ends: the batches of both tables are fewer than their rows. -/
theorem prune_terminates (T : CharTable) (world : ℕ → Moment ℚ) (s : Tables) (maxSeconds batch : Option ℤ) :
    ∃ p, ∀ fuel, s.db.decisions.rows.length + s.mtPushes.rows.length < fuel →
      prune T world fuel s maxSeconds batch = some p := by
  by_cases hon : orElse (s.db.settings "retention.enabled") "1" = "1"
  · cases herr : (bind (decisionsCap T s) (world 1)).error with
    | some text => exact ⟨(⟨"error",0,0,some false,some (errorText text)⟩,s),fun fuel _ => prune_of_error hon herr⟩
    | none =>
      obtain ⟨d,hd⟩ := @drainTo_terminates world (deadlineOf T world s maxSeconds)
        (batchSize T s batch) deleteDecisions (fun s => s.db.decisions.rows.length) (fun c s hne => by
          rw [deleteDecisions] at hne ⊢
          dsimp only at hne ⊢
          omega) 2 (cutoffId s.db (decisionsCap T s)) s
      have hpushes : d.state.mtPushes = s.mtPushes := (drainTo_decisions (hd _ (Nat.lt_succ_self _))).2.2.1
      obtain ⟨p,hp⟩ : ∃ p, ∀ fuel, s.mtPushes.rows.length < fuel → afterDecisions T world fuel s maxSeconds batch d = some p := by
        unfold afterDecisions
        cases d.stop with
        | failed text => exact ⟨(⟨"error",0,0,some false,some (errorText text)⟩,d.state),fun _ _ => rfl⟩
        | _ =>
          rw [← hpushes]
          exact prunePushes_terminates _ _ _ _ _ _
      refine ⟨p,fun fuel hfuel => ?_⟩
      rw [prune_of_drain hon herr, hd fuel (by omega)]
      exact hp fuel (by omega)
  · refine ⟨(⟨"disabled",0,0,none,none⟩,s),fun fuel _ => ?_⟩
    unfold prune
    rw [if_pos hon]

/-- Whatever comes of the first drain, a sweep keeps the rows it promises to keep. -/
theorem prune_spec (hclock : Monotone (fun i => (world i).now)) (h : prune T world fuel s maxSeconds batch = some (r,t)) :
    t.db = { s.db with decisions := t.db.decisions } ∧
      (∀ d ∈ s.db.decisions.rows, d.active = true ∨ newerTombstones s d < decisionsCap T s ∨
        (d.id : ℤ) ∈ pendingDecisionIds s.db → d ∈ t.db.decisions.rows) ∧
      (∀ p ∈ s.mtPushes.rows, newerPushes s p < pushesCap T s → p ∈ t.mtPushes.rows) ∧
      (r.status = "ok" → r.truncated = some false → 1 ≤ batchSize T s batch →
        (tombstones t).length ≤ decisionsCap T s + (pinned t).length ∧ t.mtPushes.rows.length ≤ pushesCap T s) := by
  by_cases hon : orElse (s.db.settings "retention.enabled") "1" = "1"
  · cases herr : (bind (decisionsCap T s) (world 1)).error with
    | some text =>
      rw [prune_of_error hon herr] at h
      cases h
      exact ⟨rfl,fun d hd _ => hd,fun p hp _ => hp,fun hok => by simp at hok⟩
    | none =>
      rw [prune_of_drain hon herr] at h
      obtain ⟨d,hd,hafter⟩ := Option.bind_eq_some_iff.mp h
      obtain ⟨htimed,hrest,hpushes,hkept,hempty⟩ := drainTo_decisions hd
      unfold afterDecisions at hafter
      split at hafter
      · cases hafter
        exact ⟨hrest,hkept,fun p hp _ => by rwa [hpushes],fun hok => by simp at hok⟩
      · next hfail =>
        obtain ⟨hdb,hkeptPushes,hend⟩ := prunePushes_spec hclock hafter
        have hrows : t.db.decisions = d.state.db.decisions := by rw [hdb]
        refine ⟨by rw [hrows, ← hrest, hdb],fun q hq hkeep => by rw [hrows]; exact hkept q hq hkeep,?_,?_⟩
        · intro p hp hnew
          rw [newerPushes, ← hpushes] at hnew
          rw [← hpushes] at hp
          exact hkeptPushes p hp hnew
        · intro hok htrunc hsize
          obtain ⟨hearly,hcap⟩ := hend hok htrunc
          have hstop : d.stop = .empty := by
            cases hstop : d.stop with
            | empty => rfl
            | failed text => exact absurd hstop (hfail text)
            | deadline =>
              obtain ⟨i,hi,hlate⟩ := htimed.late hstop
              exact absurd hlate (not_le.mpr (hearly i hi))
          have hbound := hempty hstop hsize
          refine ⟨?_,hcap hsize⟩
          unfold pinned tombstones at hbound ⊢
          rwa [hdb]
  · unfold prune at h
    rw [if_pos hon] at h
    cases h
    exact ⟨rfl,fun d hd _ => hd,fun p hp _ => hp,fun hok => by simp at hok⟩

/-- A batch of the sweep is a batch of the sweep on the decisions alone. -/
theorem db_deleteDecisions (c n : ℕ) (s : Tables) : (deleteDecisions c n s).2.db = deleteBatch s.db c n := by
  have hlimit : limit n s.db.decisions.rows.length = n := by
    rw [limit, if_neg (by omega), Int.toNat_natCast]
  exact congrArg (deleteBatch s.db c) hlimit

/-- The decisions that a sweep with the batch size of the settings leaves are those after a number of its batches. -/
theorem prune_decisions (hclock : Monotone (fun i => (world i).now)) (h : prune T world fuel s maxSeconds none = some (r,t)) :
    ∃ rounds, t.db = Policy.prune T s.db rounds := by
  by_cases hon : orElse (s.db.settings "retention.enabled") "1" = "1"
  · have hprune : ∀ rounds, Policy.prune T s.db rounds = match cutoffId s.db (decisionsCap T s) with
        | none => s.db
        | some c => (fun db => deleteBatch db c (settingInt T db "retention.batch_size" 5000))^[rounds] s.db := by
      intro rounds
      unfold Policy.prune
      rw [if_neg (not_not.mpr hon)]
      rfl
    cases herr : (bind (decisionsCap T s) (world 1)).error with
    | some text =>
      rw [prune_of_error hon herr] at h
      cases h
      refine ⟨0,?_⟩
      rw [hprune]
      split <;> rfl
    | none =>
      rw [prune_of_drain hon herr] at h
      obtain ⟨d,hd,hafter⟩ := Option.bind_eq_some_iff.mp h
      have hdb : t.db = d.state.db := by
        unfold afterDecisions at hafter
        split at hafter
        · cases hafter
          rfl
        · exact (prunePushes_spec hclock hafter).1
      obtain ⟨-,⟨hnone,hstate⟩ | ⟨c,hc,⟨n,hn,-⟩,-⟩⟩ := drainTo_spec
        (I := fun c t => ∃ n, t.db = (fun db => deleteBatch db c (settingInt T db "retention.batch_size" 5000))^[n] s.db ∧
          t.db.settings = s.db.settings) hd (fun c => ⟨0,rfl,rfl⟩) (by
        rintro c t ⟨n,hn,hset⟩
        have hstep : (deleteDecisions c (batchSize T s none) t).2.db =
            deleteBatch t.db c (settingInt T t.db "retention.batch_size" 5000) := by
          have hsize : batchSize T s none = (settingInt T t.db "retention.batch_size" 5000 : ℕ) := by
            rw [batchSize, Option.getD_none, settingInt, settingInt, hset]
          rw [hsize, db_deleteDecisions]
        refine ⟨n + 1,?_,?_⟩
        · rw [hstep, Function.iterate_succ_apply', ← hn]
        · rw [hstep]
          exact hset)
      · refine ⟨0,?_⟩
        rw [hprune, hnone, hdb, hstate]
      · refine ⟨n,?_⟩
        rw [hprune, hc, hdb, hn]
  · refine ⟨0,?_⟩
    unfold prune at h
    rw [if_pos hon] at h
    cases h
    unfold Policy.prune
    rw [if_pos hon]

end

/-- A sweep ends, whatever the tables, the settings and the clock; it deletes no active decision, none of the newest
tombstones and none of the newest rows of the push log within the caps; and where it answers that all went well
and nothing was cut short, the tables are within the caps, but for the pinned tombstones. -/
theorem prune_keeps_promises (T : CharTable) (world : ℕ → Moment ℚ) (hclock : Monotone (fun i => (world i).now)) (s : Tables)
    (maxSeconds batch : Option ℤ) :
    ∃ r t, (∀ fuel, s.db.decisions.rows.length + s.mtPushes.rows.length < fuel →
        prune T world fuel s maxSeconds batch = some (r,t)) ∧
      (∀ d ∈ s.db.decisions.rows, d.active = true → d ∈ t.db.decisions.rows) ∧
      (∀ d ∈ tombstones s, newerTombstones s d < decisionsCap T s → d ∈ t.db.decisions.rows) ∧
      (∀ p ∈ s.mtPushes.rows, newerPushes s p < pushesCap T s → p ∈ t.mtPushes.rows) ∧
      (r.status = "ok" → r.truncated = some false → 1 ≤ batchSize T s batch →
        (tombstones t).length ≤ decisionsCap T s + (pinned t).length ∧ t.mtPushes.rows.length ≤ pushesCap T s) := by
  obtain ⟨⟨r,t⟩,hrun⟩ := prune_terminates T world s maxSeconds batch
  obtain ⟨-,hkept,hpushes,hcaps⟩ := prune_spec hclock (hrun _ (Nat.lt_succ_self _))
  exact ⟨r,t,hrun,fun d hd hact => hkept d hd (Or.inl hact),
    fun d hd hnew => hkept d (List.mem_filter.mp hd).1 (Or.inr (Or.inl hnew)),hpushes,hcaps⟩

/-! ## Three tombstones and a cap of one -/

def deadRow (id : ℕ) (value : String) : DecisionRow where
  id := id
  originSource := "capi"
  lapiId := id
  value := value
  scope := "Ip"
  type := "ban"
  scenario := "ssh-bf"
  origin := ""
  duration := ""
  untilAt := none
  firstSeenAt := "2026-01-01T00:00:00+00:00"
  lastSeenAt := "2026-01-01T00:00:00+00:00"
  deletedAt := some "2026-01-02T00:00:00+00:00"

def exampleDb : Db :=
  Db.setSetting { Db.empty with decisions := ⟨[deadRow 1 "192.0.2.1",deadRow 2 "192.0.2.2",deadRow 3 "192.0.2.3"],by decide⟩ }
    "retention.decisions_tombstone_cap" "1"

def exampleTables : Tables := ⟨exampleDb,by decide,.empty⟩

/-- The clock stands still and no statement fails. -/
def stillWorld (_ : ℕ) : Moment ℚ := ⟨0,none⟩

theorem prune_keeps_promises_example : ∃ r t, prune .ascii stillWorld 5 exampleTables none none = some (r,t) ∧
    deadRow 3 "192.0.2.3" ∈ t.db.decisions.rows := by
  obtain ⟨r,t,hrun,-,hnewest,-⟩ := prune_keeps_promises .ascii stillWorld (fun _ _ _ => le_rfl) exampleTables none none
  exact ⟨r,t,hrun 5 (by decide),hnewest _ (by decide) (by decide)⟩

end Protek.Retention
