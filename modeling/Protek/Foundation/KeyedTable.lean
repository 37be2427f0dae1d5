import Mathlib.Data.List.Basic
import Mathlib.Data.List.Nodup

/-! # Tables with a unique key

A SQL table under a UNIQUE constraint: rows in insertion order, no two with the
same key. `upsert` is `INSERT … ON CONFLICT(key) DO UPDATE`, `modify` an UPDATE
that leaves the key columns alone, `remove` a DELETE. Reading a table through
`find` turns each of them into a pointwise change.
-/
namespace Foundation

structure KeyedTable (κ α : Type*) (key : α → κ) where
  rows : List α
  nodup : (rows.map key).Nodup

namespace KeyedTable
variable {κ α : Type*} [DecidableEq κ] {key : α → κ}

def empty : KeyedTable κ α key := ⟨[],by simp⟩

def find (t : KeyedTable κ α key) (k : κ) : Option α := t.rows.find? (fun r => key r = k)

/-- The row of the fresh row's key is merged in place; without one the fresh row goes to the end. -/
def upsertRows (key : α → κ) (fresh : α) (merge : α → α) (rows : List α) : List α :=
  if key fresh ∈ rows.map key then rows.map (fun r => if key r = key fresh then merge r else r) else rows ++ [fresh]

theorem upsertRows_nodup {fresh : α} {merge : α → α} {rows : List α} (hn : (rows.map key).Nodup)
    (hm : ∀ r, key (merge r) = key r) : ((upsertRows key fresh merge rows).map key).Nodup := by
  by_cases h : key fresh ∈ rows.map key
  · have hkeys : (rows.map (fun r => if key r = key fresh then merge r else r)).map key = rows.map key := by
      rw [List.map_map]
      refine List.map_congr_left (fun r _ => ?_)
      by_cases hr : key r = key fresh
      · simp [hr, hm]
      · simp [hr]
    rw [upsertRows, if_pos h, hkeys]
    exact hn
  · rw [upsertRows, if_neg h, List.map_append]
    refine List.nodup_append.mpr ⟨hn,List.nodup_singleton _,?_⟩
    intro a ha b hb he
    rw [List.map_singleton, List.mem_singleton] at hb
    exact h (hb ▸ he ▸ ha)

def upsert (t : KeyedTable κ α key) (fresh : α) (merge : α → α) (hm : ∀ r, key (merge r) = key r) :
    KeyedTable κ α key := ⟨upsertRows key fresh merge t.rows,upsertRows_nodup t.nodup hm⟩

def modify (t : KeyedTable κ α key) (f : α → α) (hf : ∀ r, key (f r) = key r) : KeyedTable κ α key where
  rows := t.rows.map f
  nodup := by
    rw [List.map_map, show key ∘ f = key from funext hf]
    exact t.nodup

def remove (t : KeyedTable κ α key) (p : α → Bool) : KeyedTable κ α key where
  rows := t.rows.filter (fun r => !p r)
  nodup := (List.filter_sublist.map key).nodup t.nodup

theorem find_eq_some {t : KeyedTable κ α key} {k : κ} {r : α} : t.find k = some r ↔ r ∈ t.rows ∧ key r = k := by
  constructor
  · intro h
    exact ⟨List.mem_of_find?_eq_some h,by simpa using List.find?_some h⟩
  · rintro ⟨hr,rfl⟩
    have hsome : (t.find (key r)).isSome = true := List.find?_isSome.mpr ⟨r,hr,by simp⟩
    obtain ⟨r',hr'⟩ := Option.isSome_iff_exists.mp hsome
    have hk : key r' = key r := by simpa using List.find?_some hr'
    rw [hr', List.inj_on_of_nodup_map t.nodup (List.mem_of_find?_eq_some hr') hr hk]

/-- The entry of a key, in a list of entries whose keys do not repeat. -/
theorem find_of_mem {β : Type*} {l : List (κ × β)} (h : (l.map Prod.fst).Nodup) {p : κ × β} (hp : p ∈ l) :
    l.find? (fun q => q.1 = p.1) = some p :=
  (@find_eq_some κ (κ × β) _ Prod.fst ⟨l,h⟩ p.1 p).mpr ⟨hp,rfl⟩

theorem find_eq_none {t : KeyedTable κ α key} {k : κ} : t.find k = none ↔ ∀ r ∈ t.rows, key r ≠ k := by
  simp [find, List.find?_eq_none]

theorem mem_upsert {t : KeyedTable κ α key} {fresh r : α} {merge : α → α} {hm : ∀ r, key (merge r) = key r} :
    r ∈ (t.upsert fresh merge hm).rows ↔
      (r ∈ t.rows ∧ key r ≠ key fresh) ∨ r = (t.find (key fresh)).elim fresh merge := by
  change r ∈ upsertRows key fresh merge t.rows ↔ _
  cases hf : t.find (key fresh) with
  | none =>
    have hno := find_eq_none.mp hf
    have hnot : key fresh ∉ t.rows.map key := by simpa using hno
    rw [upsertRows, if_neg hnot, List.mem_append, List.mem_singleton]
    exact or_congr_left (iff_self_and.mpr (hno r))
  | some old =>
    obtain ⟨hold,hk⟩ := find_eq_some.mp hf
    rw [upsertRows, if_pos (List.mem_map.mpr ⟨old,hold,hk⟩), List.mem_map]
    constructor
    · rintro ⟨q,hq,rfl⟩
      by_cases hqk : key q = key fresh
      · have : q = old := List.inj_on_of_nodup_map t.nodup hq hold (hqk.trans hk.symm)
        rw [if_pos hqk, this]
        exact Or.inr rfl
      · rw [if_neg hqk]
        exact Or.inl ⟨hq,hqk⟩
    · rintro (⟨hr,hne⟩ | rfl)
      · exact ⟨r,hr,if_neg hne⟩
      · exact ⟨old,hold,if_pos hk⟩

omit [DecidableEq κ] in
@[simp] theorem mem_modify {t : KeyedTable κ α key} {f : α → α} {hf : ∀ r, key (f r) = key r} {r : α} :
    r ∈ (t.modify f hf).rows ↔ ∃ q ∈ t.rows, f q = r := List.mem_map

omit [DecidableEq κ] in
@[simp] theorem mem_remove {t : KeyedTable κ α key} {p : α → Bool} {r : α} :
    r ∈ (t.remove p).rows ↔ r ∈ t.rows ∧ p r = false := by
  simp [remove]

theorem find_upsert (t : KeyedTable κ α key) (fresh : α) (merge : α → α) (hm : ∀ r, key (merge r) = key r) (k : κ) :
    (t.upsert fresh merge hm).find k =
      if k = key fresh then some ((t.find k).elim fresh merge) else t.find k := by
  by_cases hk : k = key fresh
  · subst hk
    rw [if_pos rfl, find_eq_some]
    refine ⟨mem_upsert.mpr (Or.inr rfl),?_⟩
    cases hf : t.find (key fresh) with
    | none => rfl
    | some old => exact (hm old).trans (find_eq_some.mp hf).2
  · rw [if_neg hk]
    cases hf : t.find k with
    | none =>
      rw [find_eq_none] at hf ⊢
      intro r hr
      rcases mem_upsert.mp hr with ⟨hr,_⟩ | rfl
      · exact hf r hr
      · cases hof : t.find (key fresh) with
        | none => exact fun h => hk h.symm
        | some old => exact fun h => hk (h.symm.trans ((hm old).trans (find_eq_some.mp hof).2))
    | some r =>
      obtain ⟨hr,hrk⟩ := find_eq_some.mp hf
      exact find_eq_some.mpr ⟨mem_upsert.mpr (Or.inl ⟨hr,hrk ▸ hk⟩),hrk⟩

theorem rows_upsert_of_none {t : KeyedTable κ α key} {fresh : α} {merge : α → α} {hm : ∀ r, key (merge r) = key r}
    (h : t.find (key fresh) = none) : (t.upsert fresh merge hm).rows = t.rows ++ [fresh] := by
  have hnot : key fresh ∉ t.rows.map key := by simpa using find_eq_none.mp h
  exact if_neg hnot

theorem find_modify (t : KeyedTable κ α key) (f : α → α) (hf : ∀ r, key (f r) = key r) (k : κ) :
    (t.modify f hf).find k = (t.find k).map f := by
  change (t.rows.map f).find? _ = _
  rw [List.find?_map]
  congr 2
  funext r
  simp [hf]

theorem find_remove (t : KeyedTable κ α key) (p : α → Bool) (k : κ) :
    (t.remove p).find k = (t.find k).filter (fun r => !p r) := by
  cases hf : t.find k with
  | none =>
    rw [find_eq_none] at hf
    exact find_eq_none.mpr (fun r hr => hf r (mem_remove.mp hr).1)
  | some r =>
    obtain ⟨hr,hrk⟩ := find_eq_some.mp hf
    cases hp : p r with
    | false =>
      rw [find_eq_some.mpr ⟨mem_remove.mpr ⟨hr,hp⟩,hrk⟩]
      exact (Option.filter_some_pos (by simp [hp])).symm
    | true =>
      simp only [Option.filter_some, hp, Bool.not_true, Bool.false_eq_true, if_false, find_eq_none]
      intro q hq he
      obtain ⟨hq,hpq⟩ := mem_remove.mp hq
      have : q = r := List.inj_on_of_nodup_map t.nodup hq hr (he.trans hrk.symm)
      rw [this, hp] at hpq
      cases hpq

/-! ## The rows of some keys -/

section
variable {q : κ → Bool} {fresh : α} {merge : α → α} {rows : List α}

/-- An upsert leaves the rows of other keys alone. -/
theorem filter_upsertRows (hm : ∀ r, key (merge r) = key r) (h : q (key fresh) = false) :
    (upsertRows key fresh merge rows).filter (fun r => q (key r)) = rows.filter (fun r => q (key r)) := by
  by_cases hmem : key fresh ∈ rows.map key
  · rw [upsertRows, if_pos hmem]
    clear hmem
    induction rows with
    | nil => rfl
    | cons r rows ih =>
      by_cases hr : key r = key fresh
      · have hout : q (key r) = false := hr ▸ h
        rw [List.map_cons, if_pos hr, List.filter_cons_of_neg (by simp [hm, hout]), List.filter_cons_of_neg (by simp [hout]), ih]
      · rw [List.map_cons, if_neg hr, List.filter_cons, List.filter_cons, ih]
  · rw [upsertRows, if_neg hmem, List.filter_append, List.filter_cons_of_neg (by simp [h]), List.filter_nil, List.append_nil]

/-- An upsert seen through a map that keeps the keys. -/
theorem map_filter_upsertRows {f : α → α} (hf : ∀ r, key (f r) = key r) (hm : ∀ r, key (merge r) = key r)
    (hfm : ∀ r, f (merge r) = merge (f r)) (h : q (key fresh) = true) :
    ((upsertRows key fresh merge rows).filter (fun r => q (key r))).map f =
      upsertRows key (f fresh) merge ((rows.filter (fun r => q (key r))).map f) := by
  have hkeys : key (f fresh) ∈ ((rows.filter (fun r => q (key r))).map f).map key ↔ key fresh ∈ rows.map key := by
    rw [hf, List.map_map, show key ∘ f = key from funext hf]
    constructor
    · exact fun hmem => (List.filter_sublist.map key).subset hmem
    · intro hmem
      obtain ⟨r,hr,he⟩ := List.mem_map.mp hmem
      exact List.mem_map.mpr ⟨r,List.mem_filter.mpr ⟨hr,he ▸ h⟩,he⟩
  by_cases hmem : key fresh ∈ rows.map key
  · rw [upsertRows, if_pos hmem, upsertRows, if_pos (hkeys.mpr hmem), List.filter_map, List.map_map, List.map_map]
    have hsame : (fun r => q (key r)) ∘ (fun r => if key r = key fresh then merge r else r) = fun r => q (key r) := by
      funext r
      dsimp only [Function.comp]
      split
      · rw [hm]
      · rfl
    rw [hsame]
    refine List.map_congr_left (fun r _ => ?_)
    dsimp only [Function.comp]
    rw [hf, hf]
    split
    · exact hfm r
    · rfl
  · rw [upsertRows, if_neg hmem, upsertRows, if_neg (fun hin => hmem (hkeys.mp hin)), List.filter_append,
      List.filter_cons_of_pos (p := fun r => q (key r)) h, List.filter_nil, List.map_append, List.map_singleton]

end

end KeyedTable
end Foundation
