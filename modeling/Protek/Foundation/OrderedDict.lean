import Mathlib.Data.List.Basic
import Mathlib.Data.List.Induction
import Mathlib.Data.List.Nodup

/-! # Insertion-ordered dictionaries

Python's `dict`: assigning to a present key replaces the value where it stands,
a new key goes to the end. Building a dictionary from a list keeps the keys in
order of first appearance, with the last value (`set`, `d[k] = v`) or the first
one (`setDefault`, `d.setdefault(k, v)`).
-/
namespace Foundation

structure OrderedDict (κ α : Type*) where
  items : List (κ × α)
  nodup : (items.map Prod.fst).Nodup

namespace OrderedDict
variable {κ α β : Type*} [DecidableEq κ]

def empty : OrderedDict κ α := ⟨[],by simp⟩

def keys (m : OrderedDict κ α) : List κ := m.items.map Prod.fst

def setItems (k : κ) (v : α) : List (κ × α) → List (κ × α)
  | [] => [(k,v)]
  | p :: rest => if p.1 = k then (k,v) :: rest else p :: setItems k v rest

theorem setItems_keys (k : κ) (v : α) (items : List (κ × α)) :
    (setItems k v items).map Prod.fst =
      if k ∈ items.map Prod.fst then items.map Prod.fst else items.map Prod.fst ++ [k] := by
  induction items with
  | nil => simp [setItems]
  | cons p rest ih =>
    by_cases hp : p.1 = k
    · simp [setItems, hp]
    · have hk : ¬ k = p.1 := fun h => hp h.symm
      simp only [setItems, if_neg hp, List.map_cons, ih, List.mem_cons, hk, false_or]
      split <;> simp

theorem mem_setItems {k : κ} {v : α} {items : List (κ × α)} (hn : (items.map Prod.fst).Nodup) {p : κ × α}
    (h : p ∈ setItems k v items) : p = (k,v) ∨ (p ∈ items ∧ p.1 ≠ k) := by
  induction items with
  | nil => exact Or.inl (by simpa [setItems] using h)
  | cons q rest ih =>
    obtain ⟨hq,hrest⟩ := List.nodup_cons.mp (List.map_cons ▸ hn)
    by_cases hk : q.1 = k
    · simp only [setItems, if_pos hk, List.mem_cons] at h
      rcases h with h | h
      · exact Or.inl h
      · refine Or.inr ⟨List.mem_cons_of_mem _ h,?_⟩
        intro he
        exact hq (List.mem_map.mpr ⟨p,h,he.trans hk.symm⟩)
    · simp only [setItems, if_neg hk, List.mem_cons] at h
      rcases h with rfl | h
      · exact Or.inr ⟨List.mem_cons_self,hk⟩
      · exact (ih hrest h).imp_right (fun h => ⟨List.mem_cons_of_mem _ h.1,h.2⟩)

def set (m : OrderedDict κ α) (k : κ) (v : α) : OrderedDict κ α where
  items := setItems k v m.items
  nodup := by
    rw [setItems_keys]
    split
    · exact m.nodup
    · next h => exact List.nodup_append.mpr ⟨m.nodup,List.nodup_singleton _,by
        intro a ha b hb he
        exact h (by rw [← List.mem_singleton.mp hb, ← he]; exact ha)⟩

def setDefault (m : OrderedDict κ α) (k : κ) (v : α) : OrderedDict κ α :=
  if k ∈ m.keys then m else m.set k v

theorem keys_set (m : OrderedDict κ α) (k : κ) (v : α) :
    (m.set k v).keys = if k ∈ m.keys then m.keys else m.keys ++ [k] := setItems_keys k v m.items

theorem keys_setDefault (m : OrderedDict κ α) (k : κ) (v : α) :
    (m.setDefault k v).keys = if k ∈ m.keys then m.keys else m.keys ++ [k] := by
  by_cases h : k ∈ m.keys
  · rw [setDefault, if_pos h, if_pos h]
  · rw [setDefault, if_neg h, keys_set]

/-! ## Order of first appearance -/

def firstKeys (l : List κ) : List κ := l.foldl (fun ks k => if k ∈ ks then ks else ks ++ [k]) []

@[simp] theorem firstKeys_nil : firstKeys ([] : List κ) = [] := rfl

theorem firstKeys_concat (l : List κ) (k : κ) :
    firstKeys (l ++ [k]) = if k ∈ firstKeys l then firstKeys l else firstKeys l ++ [k] := by
  rw [firstKeys, List.foldl_append]
  rfl

@[simp] theorem mem_firstKeys {l : List κ} {k : κ} : k ∈ firstKeys l ↔ k ∈ l := by
  induction l using List.reverseRecOn with
  | nil => simp
  | append_singleton l j ih =>
    rw [firstKeys_concat]
    split
    · next h => simp only [List.mem_append, List.mem_singleton, ih]
                exact ⟨Or.inl,fun hk => hk.elim id (fun he => he ▸ ih.mp (he ▸ h))⟩
    · simp only [List.mem_append, ih]

theorem firstKeys_filter (p : κ → Bool) (l : List κ) : firstKeys (l.filter p) = (firstKeys l).filter p := by
  induction l using List.reverseRecOn with
  | nil => rfl
  | append_singleton l k ih =>
    rw [List.filter_append, firstKeys_concat]
    cases hk : p k with
    | false =>
      rw [List.filter_singleton, hk, cond_false, List.append_nil, ih]
      split
      · rfl
      · rw [List.filter_append, List.filter_singleton, hk, cond_false, List.append_nil]
    | true =>
      rw [List.filter_singleton, hk, cond_true, firstKeys_concat, ih]
      have hmem : k ∈ (firstKeys l).filter p ↔ k ∈ firstKeys l := by rw [List.mem_filter, and_iff_left hk]
      simp only [hmem]
      split
      · rfl
      · rw [List.filter_append, List.filter_singleton, hk, cond_true]

def lastWith (key : β → κ) (k : κ) (l : List β) : Option β := l.reverse.find? (fun e => key e = k)

theorem lastWith_concat (key : β → κ) (k : κ) (l : List β) (e : β) :
    lastWith key k (l ++ [e]) = if key e = k then some e else lastWith key k l := by
  unfold lastWith
  rw [List.reverse_append, List.reverse_singleton, List.singleton_append, List.find?_cons]
  by_cases h : key e = k <;> simp [h]

theorem lastWith_some {key : β → κ} {k : κ} {l : List β} {e : β} (h : lastWith key k l = some e) :
    e ∈ l ∧ key e = k :=
  ⟨List.mem_reverse.mp (List.mem_of_find?_eq_some h),by simpa using List.find?_some h⟩

theorem lastWith_isSome {key : β → κ} {k : κ} {l : List β} : (lastWith key k l).isSome ↔ ∃ e ∈ l, key e = k := by
  simp [lastWith, List.find?_isSome]

/-- The last elements of each key, keys in order of first appearance. -/
def lastByKey (key : β → κ) (l : List β) : List β :=
  (firstKeys (l.map key)).filterMap (fun k => lastWith key k l)

theorem firstKeys_append {l m : List κ} (hdisj : ∀ k ∈ l, k ∉ m) : firstKeys (l ++ m) = firstKeys l ++ firstKeys m := by
  induction m using List.reverseRecOn with
  | nil => simp
  | append_singleton m j ih =>
    have hm : ∀ k ∈ l, k ∉ m := fun k hk hkm => hdisj k hk (List.mem_append_left _ hkm)
    have hj : j ∉ l := fun hl => hdisj j hl (by simp)
    have hiff : j ∈ firstKeys l ++ firstKeys m ↔ j ∈ firstKeys m := by simp [hj]
    rw [← List.append_assoc, firstKeys_concat, firstKeys_concat, ih hm]
    by_cases h : j ∈ firstKeys m
    · rw [if_pos (hiff.mpr h), if_pos h]
    · rw [if_neg (fun h' => h (hiff.mp h')), if_neg h, List.append_assoc]

theorem lastByKey_map {γ : Type*} (key : β → κ) (f : γ → β) (l : List γ) :
    lastByKey key (l.map f) = (lastByKey (fun c => key (f c)) l).map f := by
  have hlast : ∀ k, lastWith key k (l.map f) = (lastWith (fun c => key (f c)) k l).map f := by
    intro k
    rw [lastWith, ← List.map_reverse, List.find?_map]
    rfl
  rw [lastByKey, lastByKey, List.map_map, List.map_filterMap]
  simp only [hlast]
  rfl

/-- Lists without a common key keep their last elements apart. -/
theorem lastByKey_append {key : β → κ} {l m : List β} (hdisj : ∀ a ∈ l, ∀ b ∈ m, key a ≠ key b) :
    lastByKey key (l ++ m) = lastByKey key l ++ lastByKey key m := by
  have hnone : ∀ {k : κ} {l : List β}, k ∉ l.map key → lastWith key k l = none := by
    intro k l hk
    refine Option.not_isSome_iff_eq_none.mp (fun h => ?_)
    obtain ⟨e,he,rfl⟩ := lastWith_isSome.mp h
    exact hk (List.mem_map_of_mem he)
  have hsplit : ∀ k, lastWith key k (l ++ m) = (lastWith key k m).or (lastWith key k l) := by
    intro k
    rw [lastWith, List.reverse_append, List.find?_append]
    rfl
  have hkeys : ∀ k ∈ l.map key, k ∉ m.map key := by
    intro k hl hm
    obtain ⟨a,ha,rfl⟩ := List.mem_map.mp hl
    obtain ⟨b,hb,hab⟩ := List.mem_map.mp hm
    exact hdisj a ha b hb hab.symm
  rw [lastByKey, List.map_append, firstKeys_append hkeys, List.filterMap_append]
  congr 1
  · refine List.filterMap_congr (fun k hk => ?_)
    rw [hsplit, hnone (hkeys k (mem_firstKeys.mp hk)), Option.none_or]
  · refine List.filterMap_congr (fun k hk => ?_)
    rw [hsplit, hnone (fun hl => hkeys k hl (mem_firstKeys.mp hk)), Option.or_none]

theorem mem_of_mem_lastByKey {key : β → κ} {l : List β} {e : β} (h : e ∈ lastByKey key l) : e ∈ l := by
  obtain ⟨k,_,hk⟩ := List.mem_filterMap.mp h
  exact (lastWith_some hk).1

/-- A list with one element for each key keeps all of them, in order. -/
theorem lastByKey_of_nodup {key : β → κ} {l : List β} (h : (l.map key).Nodup) : lastByKey key l = l := by
  have hlast : ∀ e ∈ l, lastWith key (key e) l = some e := by
    intro e he
    have hsome : (lastWith key (key e) l).isSome := lastWith_isSome.mpr ⟨e,he,rfl⟩
    obtain ⟨e',he'⟩ := Option.isSome_iff_exists.mp hsome
    obtain ⟨hmem,hkey⟩ := lastWith_some he'
    rw [he', List.inj_on_of_nodup_map h hmem he hkey]
  have hfirst : ∀ ks : List κ, ks.Nodup → firstKeys ks = ks := by
    intro ks hks
    induction ks using List.reverseRecOn with
    | nil => rfl
    | append_singleton ks k ih =>
      obtain ⟨hpre,_,hdisj⟩ := List.nodup_append.mp hks
      rw [firstKeys_concat, ih hpre, if_neg (fun hk => hdisj k hk k (by simp) rfl)]
  rw [lastByKey, hfirst _ h, List.filterMap_map]
  conv_rhs => rw [← List.filterMap_some (l := l)]
  apply List.filterMap_congr
  intro e he
  exact hlast e he

/-! ## Dictionaries built from a list -/

def ofLast (key : β → κ) (l : List β) : OrderedDict κ β := l.foldl (fun m e => m.set (key e) e) empty

def ofFirst (key : β → κ) (l : List β) : OrderedDict κ β := l.foldl (fun m e => m.setDefault (key e) e) empty

theorem ofLast_concat (key : β → κ) (l : List β) (e : β) :
    ofLast key (l ++ [e]) = (ofLast key l).set (key e) e := by simp [ofLast, List.foldl_append]

theorem ofFirst_concat (key : β → κ) (l : List β) (e : β) :
    ofFirst key (l ++ [e]) = (ofFirst key l).setDefault (key e) e := by simp [ofFirst, List.foldl_append]

theorem keys_ofLast (key : β → κ) (l : List β) : (ofLast key l).keys = firstKeys (l.map key) := by
  induction l using List.reverseRecOn with
  | nil => rfl
  | append_singleton l e ih =>
    rw [ofLast_concat, keys_set, ih, List.map_append, List.map_singleton, firstKeys_concat]

theorem keys_ofFirst (key : β → κ) (l : List β) : (ofFirst key l).keys = firstKeys (l.map key) := by
  induction l using List.reverseRecOn with
  | nil => rfl
  | append_singleton l e ih =>
    rw [ofFirst_concat, keys_setDefault, ih, List.map_append, List.map_singleton, firstKeys_concat]

theorem firstKeys_nodup (l : List κ) : (firstKeys l).Nodup := by
  have h := (ofFirst id l).nodup
  rwa [← keys, keys_ofFirst, List.map_id] at h

theorem lastByKey_nodup (key : β → κ) (l : List β) : (lastByKey key l).Nodup := by
  refine List.Nodup.filterMap (fun k k' e hk hk' => ?_) (firstKeys_nodup _)
  exact (lastWith_some hk).2.symm.trans (lastWith_some hk').2

/-- Under each key stands the last element with that key. -/
theorem mem_items_ofLast {key : β → κ} {l : List β} {p : κ × β} (h : p ∈ (ofLast key l).items) :
    lastWith key p.1 l = some p.2 := by
  induction l using List.reverseRecOn with
  | nil => simp [ofLast, empty] at h
  | append_singleton l e ih =>
    rw [ofLast_concat] at h
    rw [lastWith_concat]
    rcases mem_setItems (ofLast key l).nodup h with rfl | ⟨h,hne⟩
    · simp
    · rw [if_neg (fun he => hne he.symm)]
      exact ih h

theorem map_snd_ofLast (key : β → κ) (l : List β) :
    (ofLast key l).items.map Prod.snd = lastByKey key l := by
  have hitems : ∀ items : List (κ × β), (∀ p ∈ items, lastWith key p.1 l = some p.2) →
      items.map Prod.snd = (items.map Prod.fst).filterMap (fun k => lastWith key k l) := by
    intro items hp
    induction items with
    | nil => rfl
    | cons p rest ih =>
      have hhead : lastWith key p.1 l = some p.2 := hp p List.mem_cons_self
      have hrest := ih (fun q hq => hp q (List.mem_cons_of_mem _ hq))
      simp only [List.map_cons, List.filterMap_cons, hhead, hrest]
  rw [lastByKey, ← keys_ofLast]
  exact hitems _ (fun p hp => mem_items_ofLast hp)

end OrderedDict
end Foundation
