import Protek.Foundation.Ranking
import Mathlib.Data.List.Perm.Subperm

/-! # Sweeping a log down to its newest candidates

A cap keeps so many of the newest candidates, whatever is pinned and whatever is no
candidate. A sweep may stop anywhere: what is beyond the cap afterwards was beyond it before.
-/
namespace Foundation.RankedSweep

/-- What a cap may take: candidates that are not pinned. The id of an entry is its rank. -/
structure Rule (α : Type*) where
  id : α → ℕ
  candidate : α → Bool
  pinned : α → Bool
  cap : ℕ

variable {α : Type*} (R : Rule α)

/-- How many candidates stand above an id. -/
def newer (rows : List α) (i : ℕ) : ℕ := rows.countP (fun q => R.candidate q && decide (i < R.id q))

def Beyond (rows : List α) (r : α) : Prop := R.candidate r = true ∧ R.pinned r = false ∧ R.cap ≤ newer R rows (R.id r)

instance (rows : List α) (r : α) : Decidable (Beyond R rows r) := inferInstanceAs (Decidable (_ ∧ _))

/-- What is left once nothing is beyond the cap. -/
def settled (rows : List α) : List α := rows.filter (fun r => ¬ Beyond R rows r)

/-- Some entries beyond the cap are gone, and nothing else. -/
structure Swept (rows rows' : List α) : Prop where
  sublist : rows'.Sublist rows
  kept : ∀ r ∈ rows, ¬ Beyond R rows r → r ∈ rows'

variable {R} {rows rows' rows'' : List α} {r : α}

theorem Swept.refl (R : Rule α) (rows : List α) : Swept R rows rows := ⟨List.Sublist.refl _,fun _ hr _ => hr⟩

theorem newer_anti {i j : ℕ} (h : i ≤ j) : newer R rows j ≤ newer R rows i := by
  refine List.countP_mono_left (fun q _ hq => ?_)
  simp only [Bool.and_eq_true, decide_eq_true_eq] at hq ⊢
  exact ⟨hq.1,h.trans_lt hq.2⟩

theorem newer_lt {i : ℕ} (hr : r ∈ rows) (hc : R.candidate r = true) (h : i < R.id r) :
    newer R rows (R.id r) < newer R rows i := by
  obtain ⟨front,back,rfl⟩ := List.append_of_mem hr
  have hfront : newer R front (R.id r) ≤ newer R front i := newer_anti h.le
  have hback : newer R back (R.id r) ≤ newer R back i := newer_anti h.le
  unfold newer at *
  simp only [List.countP_append, List.countP_cons, hc, lt_irrefl, h, decide_true, decide_false, Bool.and_true, Bool.and_false,
    if_true, Bool.false_eq_true, if_false]
  omega

theorem newer_le_of_subset (hn : rows.Nodup) {i : ℕ}
    (h : ∀ q ∈ rows, R.candidate q = true → i < R.id q → q ∈ rows') : newer R rows i ≤ newer R rows' i := by
  unfold newer
  rw [List.countP_eq_length_filter, List.countP_eq_length_filter]
  refine ((hn.filter _).subperm ?_).length_le
  intro q hq
  obtain ⟨hmem,hcond⟩ := List.mem_filter.mp hq
  simp only [Bool.and_eq_true, decide_eq_true_eq] at hcond
  exact List.mem_filter.mpr ⟨h q hmem hcond.1 hcond.2,by simpa using hcond⟩

/-- As many candidates as the cap stand above an id after a sweep if and only if they did before: where one of them was
swept away, the cap was reached above it already. -/
theorem Swept.newer_iff (h : Swept R rows rows') (hn : rows.Nodup) (i : ℕ) : R.cap ≤ newer R rows' i ↔ R.cap ≤ newer R rows i := by
  refine ⟨fun hle => hle.trans (h.sublist.countP_le),fun hle => ?_⟩
  induction hm : newer R rows i using Nat.strong_induction_on generalizing i with
  | _ m ih =>
    by_cases hall : ∀ q ∈ rows, R.candidate q = true → i < R.id q → q ∈ rows'
    · exact hle.trans (newer_le_of_subset hn hall)
    · push Not at hall
      obtain ⟨q,hq,hc,hlt,hgone⟩ := hall
      obtain ⟨-,-,hcap⟩ : Beyond R rows q := not_not.mp (fun hnot => hgone (h.kept q hq hnot))
      exact (ih _ (hm ▸ newer_lt hq hc hlt) (R.id q) hcap rfl).trans (newer_anti hlt.le)

theorem Swept.beyond_iff (h : Swept R rows rows') (hn : rows.Nodup) : Beyond R rows' r ↔ Beyond R rows r :=
  and_congr_right (fun _ => and_congr_right (fun _ => h.newer_iff hn _))

theorem Swept.trans (h : Swept R rows rows') (hn : rows.Nodup) (h' : Swept R rows' rows'') : Swept R rows rows'' where
  sublist := h'.sublist.trans h.sublist
  kept r hr hnot := h'.kept r (h.kept r hr hnot) (fun hb => hnot ((h.beyond_iff hn).mp hb))

/-- What is left in the end does not depend on the sweeps so far. -/
theorem Swept.settled_eq (h : Swept R rows rows') (hn : rows.Nodup) : settled R rows' = settled R rows := by
  have hfilter : settled R rows' = rows'.filter (fun r => ¬ Beyond R rows r) :=
    List.filter_congr (fun r _ => decide_eq_decide.mpr (not_congr (h.beyond_iff hn)))
  rw [hfilter]
  refine (h.sublist.filter _).eq_of_length_le (((hn.filter _).subperm ?_).length_le)
  intro r hr
  obtain ⟨hmem,hcond⟩ := List.mem_filter.mp hr
  exact List.mem_filter.mpr ⟨h.kept r hmem (of_decide_eq_true hcond),hcond⟩

theorem Swept.eq_settled (h : Swept R rows rows') (hn : rows.Nodup) (hnone : ∀ r ∈ rows', ¬ Beyond R rows r) :
    rows' = settled R rows := by
  rw [← h.settled_eq hn, settled, List.filter_eq_self.mpr]
  intro r hr
  exact decide_eq_true (fun hb => hnone r hr ((h.beyond_iff hn).mp hb))

/-! ## The cutoff of a sweep -/

theorem newer_eq (i : ℕ) : newer R rows i = (((rows.filter R.candidate).map R.id).filter (fun j => i < j)).length := by
  rw [newer, List.filter_map, List.length_map, List.filter_filter, List.countP_eq_length_filter]
  refine congrArg List.length (List.filter_congr (fun q _ => ?_))
  rw [Bool.and_comm]
  rfl

/-- The cutoff id tells what is beyond the cap. -/
theorem le_cutoff_iff (hn : ((rows.filter R.candidate).map R.id).Nodup) {c : ℕ}
    (h : Ranking.cutoff ((rows.filter R.candidate).map R.id) R.cap = some c) (hr : r ∈ rows) (hc : R.candidate r = true) :
    R.id r ≤ c ↔ R.cap ≤ newer R rows (R.id r) := by
  refine ⟨fun hle => newer_eq (R.id r) ▸ Ranking.le_length_above hn h hle,fun hcap => ?_⟩
  by_contra hlt
  have habove := Ranking.length_above_le h
  rw [← newer_eq] at habove
  exact absurd (hcap.trans_lt (newer_lt hr hc (not_le.mp hlt))) (not_lt.mpr habove)

theorem newer_lt_countP (hr : r ∈ rows) (hc : R.candidate r = true) : newer R rows (R.id r) < rows.countP R.candidate := by
  obtain ⟨front,back,rfl⟩ := List.append_of_mem hr
  have hfront : newer R front (R.id r) ≤ front.countP R.candidate :=
    List.countP_mono_left (fun q _ hq => (Bool.and_eq_true _ _ ▸ hq).1)
  have hback : newer R back (R.id r) ≤ back.countP R.candidate :=
    List.countP_mono_left (fun q _ hq => (Bool.and_eq_true _ _ ▸ hq).1)
  unfold newer at *
  simp only [List.countP_append, List.countP_cons, hc, lt_irrefl, decide_false, Bool.and_false, Bool.false_eq_true, if_true,
    if_false]
  omega

theorem newer_lt_of_no_cutoff (h : Ranking.cutoff ((rows.filter R.candidate).map R.id) R.cap = none) (hr : r ∈ rows)
    (hc : R.candidate r = true) : newer R rows (R.id r) < R.cap := by
  have hle := Ranking.length_le_of_cutoff h
  rw [List.length_map, ← List.countP_eq_length_filter] at hle
  exact (newer_lt_countP hr hc).trans_le hle

end Foundation.RankedSweep
