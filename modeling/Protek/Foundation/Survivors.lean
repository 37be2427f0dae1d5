import Mathlib.Order.MinMax
import Protek.Foundation.KeyedTable
import Protek.Foundation.OrderedDict

/-! # The last row of each key

The rows that a correlated `SELECT MAX(rank)` keeps: a row survives when no other
row of its key ranks higher. Where ranks do not repeat, one row of each key
survives, so that the survivors fit under a unique key and are as many as a
`GROUP BY` of the keys has groups.
-/
namespace Foundation.Survivors
variable {α β κ : Type*} [DecidableEq κ] [LinearOrder β] {key : α → κ} {rank : α → β} {l : List α}

/-- MAX of a column, NULL without a row. -/
def sqlMax : List β → Option β
  | [] => none
  | b :: bs => some ((sqlMax bs).elim b (max b))

theorem sqlMax_ne_none {bs : List β} {b : β} (hb : b ∈ bs) : sqlMax bs ≠ none := by
  cases bs with
  | nil => cases hb
  | cons c cs => exact Option.some_ne_none _

theorem sqlMax_spec {bs : List β} {m : β} (h : sqlMax bs = some m) : m ∈ bs ∧ ∀ b ∈ bs, b ≤ m := by
  induction bs generalizing m with
  | nil => cases h
  | cons b bs ih =>
    rw [sqlMax] at h
    cases hmax : sqlMax bs with
    | none =>
      obtain rfl : b = m := by simpa [hmax] using h
      have hno : ∀ c, c ∉ bs := fun c hc => sqlMax_ne_none hc hmax
      exact ⟨List.mem_cons_self,fun c hc => ((List.mem_cons.mp hc).resolve_right (hno c)).le⟩
    | some n =>
      obtain rfl : max b n = m := by simpa [hmax] using h
      obtain ⟨hn,hle⟩ := ih hmax
      refine ⟨?_,fun c hc => ?_⟩
      · rcases max_choice b n with h | h <;> rw [h]
        · exact List.mem_cons_self
        · exact List.mem_cons_of_mem b hn
      · rcases List.mem_cons.mp hc with rfl | hc
        · exact le_max_left _ _
        · exact (hle c hc).trans (le_max_right _ _)

theorem sqlMax_eq_some {bs : List β} {m : β} : sqlMax bs = some m ↔ m ∈ bs ∧ ∀ b ∈ bs, b ≤ m := by
  refine ⟨sqlMax_spec,fun ⟨hm,hle⟩ => ?_⟩
  obtain ⟨n,hn⟩ := Option.ne_none_iff_exists'.mp (sqlMax_ne_none hm)
  obtain ⟨hmem,hmax⟩ := sqlMax_spec hn
  rw [hn, le_antisymm (hle n hmem) (hmax m hm)]

/-- `SELECT MAX(rank) … WHERE key = k`. -/
def maxRank (key : α → κ) (rank : α → β) (l : List α) (k : κ) : Option β :=
  sqlMax ((l.filter (fun b => key b = k)).map rank)

def survivors (key : α → κ) (rank : α → β) (l : List α) : List α :=
  l.filter (fun a => maxRank key rank l (key a) = some (rank a))

/-- The rows of a key that no row of the key outranks. -/
def IsTop (key : α → κ) (rank : α → β) (l : List α) (a : α) : Prop :=
  a ∈ l ∧ ∀ b ∈ l, key b = key a → rank b ≤ rank a

theorem maxRank_eq_some {k : κ} {m : β} : maxRank key rank l k = some m ↔
    (∃ a ∈ l, key a = k ∧ rank a = m) ∧ ∀ a ∈ l, key a = k → rank a ≤ m := by
  rw [maxRank, sqlMax_eq_some, List.forall_mem_map]
  simp only [List.mem_map, List.mem_filter, decide_eq_true_eq, and_imp, and_assoc]

theorem mem_survivors {a : α} : a ∈ survivors key rank l ↔ IsTop key rank l a := by
  rw [survivors, List.mem_filter, decide_eq_true_eq, maxRank_eq_some, IsTop]
  refine and_congr_right (fun ha => ?_)
  exact and_iff_right ⟨a,ha,rfl,rfl⟩

/-- Every key of the list has a survivor. -/
theorem exists_isTop {b : α} (hb : b ∈ l) : ∃ a, IsTop key rank l a ∧ key a = key b := by
  have hmem : rank b ∈ (l.filter (fun c => key c = key b)).map rank :=
    List.mem_map_of_mem (List.mem_filter.mpr ⟨hb,decide_eq_true rfl⟩)
  obtain ⟨m,hm⟩ := Option.ne_none_iff_exists'.mp (sqlMax_ne_none hmem)
  obtain ⟨⟨a,ha,hka,rfl⟩,hmax⟩ := maxRank_eq_some.mp hm
  exact ⟨a,⟨ha,fun c hc hkc => hmax c hc (hkc.trans hka)⟩,hka⟩

omit [DecidableEq κ] in
theorem IsTop.unique (hn : (l.map rank).Nodup) {a b : α} (ha : IsTop key rank l a) (hb : IsTop key rank l b)
    (hk : key a = key b) : a = b := by
  have hrank : rank a = rank b := le_antisymm (hb.2 a ha.1 hk) (ha.2 b hb.1 hk.symm)
  exact List.inj_on_of_nodup_map hn ha.1 hb.1 hrank

theorem nodup_map_survivors (hn : (l.map rank).Nodup) : ((survivors key rank l).map key).Nodup := by
  refine List.Nodup.map_on (fun a ha b hb hk => ?_) (hn.of_map.filter _)
  exact (mem_survivors.mp ha).unique hn (mem_survivors.mp hb) hk

theorem mem_map_survivors {k : κ} : k ∈ (survivors key rank l).map key ↔ k ∈ l.map key := by
  simp only [List.mem_map, mem_survivors]
  constructor
  · rintro ⟨a,ha,rfl⟩
    exact ⟨a,ha.1,rfl⟩
  · rintro ⟨b,hb,rfl⟩
    exact exists_isTop hb

/-- There are as many survivors as groups. -/
theorem length_survivors (hn : (l.map rank).Nodup) :
    (survivors key rank l).length = (OrderedDict.firstKeys (l.map key)).length := by
  have hperm : ((survivors key rank l).map key).Perm (OrderedDict.firstKeys (l.map key)) := by
    rw [List.perm_ext_iff_of_nodup (nodup_map_survivors hn) (OrderedDict.firstKeys_nodup _)]
    exact fun k => mem_map_survivors.trans OrderedDict.mem_firstKeys.symm
  rw [← hperm.length_eq, List.length_map]

/-! ## Rows numbered into a table

`INSERT INTO … SELECT` under a unique key: each row takes the next number, and the
statement fails at the first row whose key is there already.
-/

section
variable {γ : Type*} {key : α → κ} {build : ℕ → γ → α}

/-- A table with the number that its `AUTOINCREMENT` has given last. -/
structure Numbered (κ α : Type*) (key : α → κ) where
  table : KeyedTable κ α key
  seq : ℕ

def insertRow (build : ℕ → γ → α) (t : Numbered κ α key) (c : γ) : Option (Numbered κ α key) :=
  if h : key (build (t.seq + 1) c) ∈ t.table.rows.map key then none
  else some ⟨⟨t.table.rows ++ [build (t.seq + 1) c],by
    rw [List.map_append, List.map_singleton, List.nodup_append]
    refine ⟨t.table.nodup,List.nodup_singleton _,fun a ha b hb he => h ?_⟩
    rw [← List.mem_singleton.mp hb, ← he]
    exact ha⟩,t.seq + 1⟩

def insertRows (build : ℕ → γ → α) (t : Numbered κ α key) (cs : List γ) : Option (Numbered κ α key) :=
  cs.foldlM (insertRow build) t

/-- Rows whose keys are new and differ all go in, in order. -/
theorem insertRows_eq_some (keyOf : γ → κ) (project : α → γ) (hk : ∀ n c, key (build n c) = keyOf c)
    (hp : ∀ n c, project (build n c) = c) {t : Numbered κ α key} {cs : List γ}
    (hn : (t.table.rows.map key ++ cs.map keyOf).Nodup) :
    ∃ t', insertRows build t cs = some t' ∧ t'.table.rows.map project = t.table.rows.map project ++ cs := by
  induction cs generalizing t with
  | nil => exact ⟨t,rfl,(List.append_nil _).symm⟩
  | cons c cs ih =>
    have hnew : key (build (t.seq + 1) c) ∉ t.table.rows.map key := by
      rw [hk]
      exact fun hmem => (List.disjoint_of_nodup_append hn) hmem List.mem_cons_self
    have hstep : ∃ t₁, insertRow build t c = some t₁ ∧ t₁.table.rows = t.table.rows ++ [build (t.seq + 1) c] :=
      ⟨_,dif_neg hnew,rfl⟩
    obtain ⟨t₁,ht₁,hrows⟩ := hstep
    have hn₁ : (t₁.table.rows.map key ++ cs.map keyOf).Nodup := by
      rw [hrows, List.map_append, List.map_singleton, hk, List.append_assoc]
      exact hn
    obtain ⟨t',ht',hproj⟩ := ih hn₁
    refine ⟨t',?_,?_⟩
    · rw [insertRows, List.foldlM_cons, ht₁]
      exact ht'
    · rw [hproj, hrows, List.map_append, List.map_singleton, hp, List.append_assoc, List.singleton_append]

/-- One row of a table has the key of a row that is there. -/
theorem filter_key {t : KeyedTable κ α key} {r : α} (hr : r ∈ t.rows) : t.rows.filter (fun a => key a = key r) = [r] := by
  obtain ⟨front,back,hsplit⟩ := List.append_of_mem hr
  have hn := t.nodup
  rw [hsplit, List.map_append, List.map_cons] at hn
  obtain ⟨-,hback,hfront⟩ := List.nodup_append.mp hn
  have hnone : ∀ a ∈ front, key a ≠ key r := fun a ha => hfront _ (List.mem_map_of_mem ha) _ List.mem_cons_self
  have hrest : ∀ a ∈ back, key a ≠ key r := fun a ha he =>
    (List.nodup_cons.mp hback).1 (he ▸ List.mem_map_of_mem ha)
  rw [hsplit, List.filter_append, List.filter_cons_of_pos (by simp), List.filter_eq_nil_iff.mpr (by simpa using hnone),
    List.filter_eq_nil_iff.mpr (by simpa using hrest), List.nil_append]
end
end Foundation.Survivors
