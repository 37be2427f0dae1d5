import Mathlib.Data.List.Sort

/-! # The front of a list ranked from the top

What stands behind the first `n` of a list in descending order of a rank does not
rank above them; and everything from a rank upwards is such a front.
-/
namespace Foundation.Ranking
variable {α β : Type*} [LinearOrder β] {rank : α → β} {l : List α}

def Descending (rank : α → β) (l : List α) : Prop := l.Pairwise (fun a b => rank b ≤ rank a)

theorem descending_insertionSort (rank : α → β) (l : List α) :
    Descending rank (l.insertionSort (fun a b => rank b ≤ rank a)) := by
  have htotal : Std.Total (fun a b : α => rank b ≤ rank a) := ⟨fun a b => le_total (rank b) (rank a)⟩
  have htrans : IsTrans α (fun a b : α => rank b ≤ rank a) := ⟨fun _ _ _ hab hbc => hbc.trans hab⟩
  exact List.pairwise_insertionSort _ l

theorem Descending.le_of_mem_take (h : Descending rank l) {n : ℕ} {a b : α} (ha : a ∈ l.take n) (hb : b ∈ l)
    (hout : b ∉ l.take n) : rank b ≤ rank a := by
  rw [Descending, ← List.take_append_drop n l] at h
  rw [← List.take_append_drop n l] at hb
  have hdrop : b ∈ l.drop n := (List.mem_append.mp hb).resolve_left hout
  exact (List.pairwise_append.mp h).2.2 a ha b hdrop

theorem Descending.take_length_filter (h : Descending rank l) (m : β) :
    l.take (l.filter (fun a => m ≤ rank a)).length = l.filter (fun a => m ≤ rank a) := by
  induction l with
  | nil => rfl
  | cons a rest ih =>
    obtain ⟨hhead,htail⟩ := List.pairwise_cons.mp h
    by_cases ha : m ≤ rank a
    · simp [ha, ih htail]
    · have hnone : rest.filter (fun b => m ≤ rank b) = [] := by
        refine List.filter_eq_nil_iff.mpr (fun b hb => ?_)
        have hlt : rank b < m := (hhead b hb).trans_lt (not_le.mp ha)
        simpa using hlt
      simp [ha, hnone]

/-! ## The place of a cutoff -/

/-- The element behind the first `n` of the list in descending order. -/
def cutoff (l : List β) (n : ℕ) : Option β := (l.insertionSort (fun a b => b ≤ a))[n]?

variable {L : List β} {n : ℕ} {a c : β}

theorem length_le_of_cutoff (h : cutoff L n = none) : L.length ≤ n := by
  rw [cutoff, List.getElem?_eq_none_iff, List.length_insertionSort] at h
  exact h

/-- The list in descending order falls into what stands before the cutoff and what does not rank above it. -/
theorem cutoff_split (h : cutoff L n = some c) : ∃ front back : List β, (front ++ back).Perm L ∧ front.length = n ∧
    (∀ b ∈ front, c ≤ b) ∧ c ∈ back ∧ ∀ b ∈ back, b ≤ c := by
  have hsorted : Descending id (L.insertionSort (fun a b => b ≤ a)) := descending_insertionSort id L
  obtain ⟨hlt,hc⟩ := List.getElem?_eq_some_iff.mp h
  generalize hS : L.insertionSort (fun a b => b ≤ a) = S at hsorted hlt hc
  have hdrop : S.drop n = c :: S.drop (n + 1) := by
    rw [List.drop_eq_getElem_cons hlt, hc]
  rw [Descending, ← List.take_append_drop n S, hdrop, List.pairwise_append] at hsorted
  obtain ⟨-,htail,hfront⟩ := hsorted
  refine ⟨S.take n,S.drop n,?_,?_,?_,?_,?_⟩
  · rw [List.take_append_drop, ← hS]
    exact List.perm_insertionSort _ L
  · rw [List.length_take, Nat.min_eq_left hlt.le]
  · exact fun b hb => hfront b hb c List.mem_cons_self
  · rw [hdrop]
    exact List.mem_cons_self
  · intro b hb
    rw [hdrop] at hb
    rcases List.mem_cons.mp hb with rfl | hb
    · exact le_rfl
    · exact (List.pairwise_cons.mp htail).1 b hb

/-- No more than `n` elements rank above the cutoff. -/
theorem length_above_le (h : cutoff L n = some c) : (L.filter (fun b => c < b)).length ≤ n := by
  obtain ⟨front,back,hperm,hlen,-,-,hback⟩ := cutoff_split h
  have hnone : back.filter (fun b => c < b) = [] :=
    List.filter_eq_nil_iff.mpr (fun b hb => by simpa using hback b hb)
  rw [← (hperm.filter _).length_eq, List.filter_append, hnone, List.append_nil, ← hlen]
  exact List.length_filter_le _ _

/-- Of distinct elements at least `n` rank above any that does not rank above the cutoff. -/
theorem le_length_above (hn : L.Nodup) (h : cutoff L n = some c) (ha : a ≤ c) : n ≤ (L.filter (fun b => a < b)).length := by
  obtain ⟨front,back,hperm,hlen,hfront,hc,-⟩ := cutoff_split h
  have hdisj : ∀ b ∈ front, b ≠ c := by
    rintro b hb rfl
    exact (List.nodup_append.mp (hperm.nodup_iff.mpr hn)).2.2 b hb b hc rfl
  have hall : front.filter (fun b => a < b) = front := by
    refine List.filter_eq_self.mpr (fun b hb => ?_)
    exact decide_eq_true (ha.trans_lt (lt_of_le_of_ne (hfront b hb) (hdisj b hb).symm))
  rw [← (hperm.filter _).length_eq, List.filter_append, hall, List.length_append, hlen]
  exact Nat.le_add_right _ _

/-! ## The running maximum -/

theorem foldl_max (ks : List β) (k : β) :
    ks.foldl (fun m x => if m < x then x else m) k ∈ k :: ks ∧ ∀ x ∈ k :: ks, x ≤ ks.foldl (fun m x => if m < x then x else m) k := by
  induction ks generalizing k with
  | nil => exact ⟨List.mem_singleton.mpr rfl,fun x hx => (List.mem_singleton.mp hx).le⟩
  | cons next rest ih =>
    rw [List.foldl_cons, ← max_def_lt]
    obtain ⟨hmem,hmax⟩ := ih (max k next)
    have htop := hmax (max k next) List.mem_cons_self
    constructor
    · rcases List.mem_cons.mp hmem with heq | hrest
      · rw [heq]
        rcases le_total k next with hle | hle
        · rw [max_eq_right hle]
          exact List.mem_cons_of_mem k List.mem_cons_self
        · rw [max_eq_left hle]
          exact List.mem_cons_self
      · exact List.mem_cons_of_mem k (List.mem_cons_of_mem next hrest)
    · refine List.forall_mem_cons.mpr ⟨(le_max_left k next).trans htop,List.forall_mem_cons.mpr ⟨(le_max_right k next).trans htop,?_⟩⟩
      exact fun x hx => hmax x (List.mem_cons_of_mem _ hx)

/-! ## The front of an ascending list -/

theorem ascending_insertionSort (hn : L.Nodup) : (L.insertionSort (fun a b => a ≤ b)).Pairwise (· < ·) := by
  have htotal : Std.Total (fun a b : β => a ≤ b) := ⟨le_total⟩
  have htrans : IsTrans β (fun a b : β => a ≤ b) := ⟨fun _ _ _ => le_trans⟩
  have hsorted : (L.insertionSort (fun a b => a ≤ b)).Pairwise (· ≤ ·) := List.pairwise_insertionSort _ L
  have hnodup : (L.insertionSort (fun a b => a ≤ b)).Nodup := (List.perm_insertionSort _ L).nodup_iff.mpr hn
  exact (hsorted.and hnodup).imp (fun h => lt_of_le_of_ne h.1 h.2)

/-- All but the last `n` of an ascending list are what at least `n` others stand above. -/
theorem mem_take_iff {l : List β} (h : l.Pairwise (· < ·)) (ha : a ∈ l) :
    a ∈ l.take (l.length - n) ↔ n ≤ l.countP (fun b => a < b) := by
  obtain ⟨front,back,rfl⟩ := List.append_of_mem ha
  obtain ⟨-,hback,hfront⟩ := List.pairwise_append.mp h
  have habove : ∀ b ∈ back, a < b := (List.pairwise_cons.mp hback).1
  have hbelow : ∀ b ∈ front, b < a := fun b hb => hfront b hb a List.mem_cons_self
  have hcount : (front ++ a :: back).countP (fun b => a < b) = back.length := by
    rw [List.countP_append, List.countP_cons_of_neg (by simp), List.countP_eq_zero.mpr (fun b hb => by simpa using (hbelow b hb).le),
      List.countP_eq_length.mpr (fun b hb => by simpa using habove b hb), Nat.zero_add]
  have hnot : a ∉ front := fun hmem => (hbelow a hmem).false
  rw [hcount, List.take_append, List.mem_append, List.length_append, List.length_cons]
  constructor
  · rintro (hmem | hmem)
    · exact absurd (List.mem_of_mem_take hmem) hnot
    · by_contra hlt
      have hzero : front.length + (back.length + 1) - n - front.length = 0 := by omega
      rw [hzero] at hmem
      exact absurd hmem List.not_mem_nil
  · intro hle
    obtain ⟨k,hk⟩ : ∃ k, front.length + (back.length + 1) - n - front.length = k + 1 :=
      ⟨front.length + (back.length + 1) - n - front.length - 1,by omega⟩
    rw [hk]
    exact Or.inr List.mem_cons_self

end Foundation.Ranking
