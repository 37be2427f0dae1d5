import Mathlib.Data.List.Range
import Mathlib.Data.List.Sort

/-! # A journal bounded from its newest row

Rows under ascending ids that are never given out twice, as a SQL table with
AUTOINCREMENT keeps them. The bound deletes what lies more than `k` ids behind the newest
row, so the newest `k + 1` rows are always there, whatever happened to older ones.
-/
namespace Foundation

structure Journal (α : Type*) where
  rows : List (ℕ × α)
  seq : ℕ
  sorted : (rows.map Prod.fst).Pairwise (· < ·)
  id_range : ∀ r ∈ rows, 0 < r.1 ∧ r.1 ≤ seq

namespace Journal
variable {α : Type*}

def empty : Journal α := ⟨[],0,by simp,by simp⟩

def ids (j : Journal α) : List ℕ := j.rows.map Prod.fst

/-- `INSERT` -/
def insert (j : Journal α) (a : α) : Journal α where
  rows := j.rows ++ [(j.seq + 1,a)]
  seq := j.seq + 1
  sorted := by
    rw [List.map_append, List.map_singleton]
    refine List.pairwise_append.mpr ⟨j.sorted,List.pairwise_singleton _ _,?_⟩
    intro i hi m hm
    obtain ⟨r,hr,rfl⟩ := List.mem_map.mp hi
    rw [List.mem_singleton.mp hm]
    exact Nat.lt_succ_of_le (j.id_range r hr).2
  id_range := by
    intro r hr
    rcases List.mem_append.mp hr with hr | hr
    · exact ⟨(j.id_range r hr).1,(j.id_range r hr).2.trans (Nat.le_succ _)⟩
    · rw [List.mem_singleton.mp hr]
      exact ⟨Nat.succ_pos _,le_rfl⟩

/-- `DELETE … WHERE id < (SELECT MAX(id) …) - k` -/
def bound (k : ℕ) (j : Journal α) : Journal α where
  rows := j.rows.filter (fun r => j.rows.all (fun q => q.1 ≤ r.1 + k))
  seq := j.seq
  sorted := j.sorted.sublist (List.filter_sublist.map _)
  id_range := fun r hr => j.id_range r (List.mem_of_mem_filter hr)

/-- `DELETE` -/
def remove (j : Journal α) (p : ℕ × α → Bool) : Journal α where
  rows := j.rows.filter (fun r => !p r)
  seq := j.seq
  sorted := j.sorted.sublist (List.filter_sublist.map _)
  id_range := fun r hr => j.id_range r (List.mem_of_mem_filter hr)

/-- `UPDATE … WHERE id = ?` -/
def update (j : Journal α) (id : ℕ) (f : α → α) : Journal α where
  rows := j.rows.map (fun r => if r.1 = id then (r.1,f r.2) else r)
  seq := j.seq
  sorted := by
    have hids : (Prod.fst ∘ fun r : ℕ × α => if r.1 = id then (r.1,f r.2) else r) = Prod.fst := by
      funext r
      dsimp only [Function.comp_apply]
      split_ifs <;> rfl
    rw [List.map_map, hids]
    exact j.sorted
  id_range := by
    intro r hr
    obtain ⟨q,hq,rfl⟩ := List.mem_map.mp hr
    split_ifs
    · exact j.id_range q hq
    · exact j.id_range q hq

/-- `SELECT … ORDER BY id DESC LIMIT n`, turned round. -/
def last (n : ℕ) (j : Journal α) : List (ℕ × α) := (j.rows.reverse.take n).reverse

/-- The newest `k + 1` ids all have their row. -/
def Complete (k : ℕ) (j : Journal α) : Prop := ∀ id, 0 < id → id ≤ j.seq → j.seq ≤ id + k → id ∈ j.ids

variable {j : Journal α} {k n : ℕ}

theorem mem_ids {id : ℕ} : id ∈ j.ids ↔ ∃ a, (id,a) ∈ j.rows := by simp [ids]

@[simp] theorem mem_insert {a : α} {r : ℕ × α} : r ∈ (j.insert a).rows ↔ r ∈ j.rows ∨ r = (j.seq + 1,a) := by
  rw [insert, List.mem_append, List.mem_singleton]

theorem mem_bound {r : ℕ × α} : r ∈ (j.bound k).rows ↔ r ∈ j.rows ∧ ∀ q ∈ j.rows, q.1 ≤ r.1 + k := by
  rw [bound, List.mem_filter, List.all_eq_true]
  simp only [decide_eq_true_eq]

theorem mem_update {id : ℕ} {f : α → α} {r : ℕ × α} :
    r ∈ (j.update id f).rows ↔ ∃ q ∈ j.rows, (if q.1 = id then (q.1,f q.2) else q) = r := List.mem_map

@[simp] theorem ids_update {id : ℕ} {f : α → α} : (j.update id f).ids = j.ids := by
  rw [ids, ids, update, List.map_map]
  refine List.map_congr_left (fun r _ => ?_)
  dsimp only [Function.comp_apply]
  split_ifs <;> rfl

theorem last_suffix (n : ℕ) (j : Journal α) : j.last n <:+ j.rows := by
  rw [last, ← List.reverse_prefix, List.reverse_reverse]
  exact List.take_prefix _ _

theorem mem_of_mem_last {r : ℕ × α} (h : r ∈ j.last n) : r ∈ j.rows := (last_suffix n j).subset h

/-! ## The newest rows -/

theorem complete_empty : (empty : Journal α).Complete k := fun _ hpos hle _ => absurd hle (Nat.not_le_of_gt hpos)

theorem Complete.insert (h : j.Complete k) (a : α) : (j.insert a).Complete k := by
  intro id hpos hle hnew
  rcases Nat.lt_or_ge j.seq id with hlast | hold
  · have hid : id = j.seq + 1 := Nat.le_antisymm hle hlast
    exact mem_ids.mpr ⟨a,by rw [hid]; exact mem_insert.mpr (Or.inr rfl)⟩
  · obtain ⟨b,hb⟩ := mem_ids.mp (h id hpos hold ((Nat.le_succ _).trans hnew))
    exact mem_ids.mpr ⟨b,mem_insert.mpr (Or.inl hb)⟩

theorem Complete.bound (h : j.Complete k) : (j.bound k).Complete k := by
  intro id hpos hle hnew
  obtain ⟨a,ha⟩ := mem_ids.mp (h id hpos hle hnew)
  exact mem_ids.mpr ⟨a,mem_bound.mpr ⟨ha,fun q hq => (j.id_range q hq).2.trans hnew⟩⟩

theorem Complete.update (h : j.Complete k) (id : ℕ) (f : α → α) : (j.update id f).Complete k := by
  intro i hpos hle hnew
  rw [ids_update]
  exact h i hpos hle hnew

/-- Ascending ids up to `m`, all of the last `n` among them and none before, are those `n`. -/
theorem eq_range {l : List ℕ} {m : ℕ} (hsorted : l.Pairwise (· < ·)) (h : ∀ i, i ∈ l ↔ m < i ∧ i ≤ m + n) :
    l = List.range' (m + 1) n := by
  refine hsorted.eq_of_mem_iff List.pairwise_lt_range' (fun i => ?_)
  rw [h, List.mem_range'_1]
  omega

/-- The ids of a complete journal: what lies before its last `n`, and these. -/
theorem Complete.split (h : j.Complete k) (hn : n ≤ k + 1) (hseq : n ≤ j.seq) :
    j.ids = j.ids.filter (fun i => i ≤ j.seq - n) ++ List.range' (j.seq - n + 1) n := by
  let new := j.ids.filter (fun i => !decide (i ≤ j.seq - n))
  have hnew : new = List.range' (j.seq - n + 1) n := by
    refine eq_range (j.sorted.sublist List.filter_sublist) (fun i => ?_)
    have hin : i ∈ new ↔ i ∈ j.ids ∧ j.seq - n < i := by simp [new, List.mem_filter]
    rw [hin]
    constructor
    · rintro ⟨hi,hlt⟩
      obtain ⟨a,ha⟩ := mem_ids.mp hi
      have := (j.id_range _ ha).2
      exact ⟨hlt,by omega⟩
    · rintro ⟨hlt,hle⟩
      exact ⟨h i (by omega) (by omega) (by omega),hlt⟩
  rw [← hnew]
  refine (List.filter_append_perm _ j.ids).symm.eq_of_pairwise (fun a b _ _ hab hba => (Nat.lt_asymm hab hba).elim) j.sorted
    (List.pairwise_append.mpr ⟨j.sorted.sublist List.filter_sublist,j.sorted.sublist List.filter_sublist,?_⟩)
  intro a ha b hb
  have hle : a ≤ j.seq - n := by simpa using (List.mem_filter.mp ha).2
  have hlt : j.seq - n < b := by simpa using (List.mem_filter.mp hb).2
  exact hle.trans_lt hlt

/-- The last `n` of a complete journal are the last `n` ids given out. -/
theorem Complete.map_last (h : j.Complete k) (hn : n ≤ k + 1) :
    (j.last n).map Prod.fst = List.range' (j.seq - min n j.seq + 1) (min n j.seq) := by
  have hlast : (j.last n).map Prod.fst = (j.ids.reverse.take n).reverse := by
    rw [last, List.map_reverse, List.map_take, List.map_reverse]
    rfl
  rw [hlast, h.split ((Nat.min_le_left _ _).trans hn) (Nat.min_le_right n j.seq), List.reverse_append]
  rcases Nat.le_total n j.seq with hle | hle
  · rw [Nat.min_eq_left hle, List.take_append_of_le_length (by simp), List.take_of_length_le (by simp), List.reverse_reverse]
  · -- a journal with fewer ids than asked for has nothing before them
    have hnil : j.ids.filter (fun i => i ≤ j.seq - j.seq) = [] := by
      refine List.filter_eq_nil_iff.mpr (fun i hi => ?_)
      obtain ⟨a,ha⟩ := mem_ids.mp hi
      have := (j.id_range _ ha).1
      simp
      omega
    rw [Nat.min_eq_right hle, hnil, List.reverse_nil, List.append_nil, List.take_of_length_le (by simpa using hle),
      List.reverse_reverse]

/-- After the bound a complete journal holds its newest `k + 1` ids and no others. -/
theorem Complete.ids_bound (h : j.Complete k) :
    (j.bound k).ids = List.range' (j.seq - min (k + 1) j.seq + 1) (min (k + 1) j.seq) := by
  refine eq_range (j.bound k).sorted (fun i => ?_)
  constructor
  · intro hi
    obtain ⟨a,ha⟩ := mem_ids.mp hi
    obtain ⟨hmem,hnew⟩ := mem_bound.mp ha
    obtain ⟨hpos,hle⟩ := j.id_range _ hmem
    obtain ⟨b,hb⟩ := mem_ids.mp (h j.seq (hpos.trans_le hle) le_rfl (Nat.le_add_right _ _))
    have := hnew _ hb
    dsimp only at this hpos hle
    omega
  · rintro ⟨hlt,hle⟩
    exact h.bound i (by omega) (by change i ≤ j.seq; omega) (by change j.seq ≤ i + k; omega)

end Journal
end Foundation
