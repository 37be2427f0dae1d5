import Mathlib.Data.List.Flatten
import Mathlib.Data.List.TakeDrop

/-! # Lists in batches

A list goes out in chunks of a fixed size, and a list comes in page after page, each with
the cursor of the next. A reader that follows the cursors has a prefix of what is served,
whichever page fails, and all of it when none does.
-/
namespace Foundation.Paging
variable {α σ γ : Type*}

/-! ## Chunks -/

/-- The slices at `0, n, 2n, …` -/
def chunks (n : ℕ) (l : List α) : List (List α) :=
  (List.range ((l.length + n - 1) / n)).map (fun i => (l.drop (i * n)).take n)

theorem flatten_slices (n : ℕ) (l : List α) (k : ℕ) :
    ((List.range k).map (fun i => (l.drop (i * n)).take n)).flatten = l.take (k * n) := by
  induction k with
  | zero => simp
  | succ k ih =>
    rw [List.range_succ, List.map_append, List.flatten_append, ih, Nat.succ_mul, List.take_add, List.map_singleton,
      List.flatten_singleton]

theorem flatten_chunks {n : ℕ} (hn : 0 < n) (l : List α) : (chunks n l).flatten = l := by
  rw [chunks, flatten_slices]
  refine List.take_of_length_le ?_
  have hdiv := Nat.div_add_mod (l.length + n - 1) n
  have hmod := Nat.mod_lt (l.length + n - 1) hn
  rw [Nat.mul_comm n] at hdiv
  omega

theorem mem_of_mem_chunk {n : ℕ} {l c : List α} {a : α} (hc : c ∈ chunks n l) (ha : a ∈ c) : a ∈ l := by
  obtain ⟨i,-,rfl⟩ := List.mem_map.mp hc
  exact List.mem_of_mem_drop (List.mem_of_mem_take ha)

/-! ## Pages -/

structure Page (γ α : Type*) where
  items : List α
  next : Option γ

/-- At most so many requests, the first at a cursor: until one fails, has no successor or is not full. -/
def collect (get : σ → γ → σ × Option (Page γ α)) (full : ℕ) : ℕ → σ → γ → σ × List α
  | 0, s, _ => (s,[])
  | fuel + 1, s, c =>
    match get s c with
    | (s',none) => (s',[])
    | (s',some p) =>
      match p.next with
      | none => (s',p.items)
      | some c' =>
        if p.items.length < full then (s',p.items)
        else ((collect get full fuel s' c').1,p.items ++ (collect get full fuel s' c').2)

/-- The pages are slices of a list that the requests leave as it is. -/
structure Serves (get : σ → γ → σ × Option (Page γ α)) (items : σ → List α) (start : γ → ℕ) (full : ℕ) : Prop where
  keeps : ∀ s c, items (get s c).1 = items s
  page : ∀ s c p, (get s c).2 = some p → p.items = ((items s).drop (start c)).take full
  more : ∀ s c p c', (get s c).2 = some p → p.next = some c' → start c' = start c + full
  last : ∀ s c p, (get s c).2 = some p → p.next = none → (items s).length ≤ start c + full

section
variable {get : σ → γ → σ × Option (Page γ α)} {items : σ → List α} {start : γ → ℕ} {full : ℕ}

variable (full) in
/-- A state law that every request keeps is kept by the whole reading, and every item read is on a page. -/
theorem collect_law {I : σ → Prop} {Q : α → Prop} (hI : ∀ s c, I s → I (get s c).1)
    (hQ : ∀ s c p, I s → (get s c).2 = some p → ∀ a ∈ p.items, Q a) (fuel : ℕ) {s : σ} (hs : I s) (c : γ) :
    I (collect get full fuel s c).1 ∧ ∀ a ∈ (collect get full fuel s c).2, Q a := by
  induction fuel generalizing s c with
  | zero => exact ⟨hs,fun _ h => nomatch h⟩
  | succ fuel ih =>
    have hnext := hI s c hs
    have hpage := fun p => hQ s c p hs
    unfold collect
    generalize get s c = r at hnext hpage
    obtain ⟨s',_ | p⟩ := r
    · exact ⟨hnext,fun _ h => nomatch h⟩
    · have hp := hpage p rfl
      dsimp only
      split
      · exact ⟨hnext,hp⟩
      · rename_i c' _
        split_ifs
        · exact ⟨hnext,hp⟩
        · refine ⟨(ih hnext c').1,?_⟩
          intro a ha
          rcases List.mem_append.mp ha with ha | ha
          · exact hp a ha
          · exact (ih hnext c').2 a ha

theorem Serves.short (h : Serves get items start full) {s : σ} {c : γ} {p : Page γ α} (hp : (get s c).2 = some p)
    (hend : p.next = none ∨ p.items.length < full) : p.items = (items s).drop (start c) := by
  have hpage := h.page s c p hp
  rw [hpage]
  refine List.take_of_length_le ?_
  rw [List.length_drop]
  rcases hend with hend | hend
  · have := h.last s c p hp hend
    omega
  · rw [hpage, List.length_take, List.length_drop] at hend
    omega

theorem Serves.front (h : Serves get items start full) {s : σ} {c c' : γ} {p : Page γ α} (hp : (get s c).2 = some p)
    (hnext : p.next = some c') : (items s).drop (start c) = p.items ++ (items s).drop (start c') := by
  rw [h.page s c p hp, h.more s c p c' hp hnext, ← List.drop_drop, List.take_append_drop]

/-- Whatever page fails, the reader has the front of the list. -/
theorem Serves.collect_prefix (h : Serves get items start full) (fuel : ℕ) (s : σ) (c : γ) :
    (collect get full fuel s c).2 <+: (items s).drop (start c) := by
  induction fuel generalizing s c with
  | zero => exact List.nil_prefix
  | succ fuel ih =>
    have hkeeps := h.keeps s c
    unfold collect
    cases hget : get s c with
    | mk s' answer =>
      rw [hget] at hkeeps
      cases answer with
      | none => exact List.nil_prefix
      | some p =>
        have hp : (get s c).2 = some p := by rw [hget]
        dsimp only
        split
        · rename_i hnext
          exact (h.short hp (Or.inl hnext)).symm ▸ List.prefix_rfl
        · rename_i c' hnext
          split_ifs with hshort
          · exact (h.short hp (Or.inr hshort)).symm ▸ List.prefix_rfl
          · rw [h.front hp hnext, ← hkeeps]
            exact List.prefix_append_right_inj _ |>.mpr (ih s' c')

/-- When every page is answered, enough requests read the whole list. -/
theorem Serves.collect_eq (h : Serves get items start full) (hanswers : ∀ s c, (get s c).2.isSome = true) {fuel : ℕ} {s : σ}
    {c : γ} (hfuel : (items s).length ≤ start c + full * fuel) : (collect get full fuel s c).2 = (items s).drop (start c) := by
  induction fuel generalizing s c with
  | zero => exact (List.drop_of_length_le (by simpa using hfuel)).symm
  | succ fuel ih =>
    obtain ⟨p,hp⟩ := Option.isSome_iff_exists.mp (hanswers s c)
    have hkeeps := h.keeps s c
    unfold collect
    cases hget : get s c with
    | mk s' answer =>
      rw [hget] at hkeeps hp
      obtain rfl : answer = some p := hp
      have hp' : (get s c).2 = some p := by rw [hget]
      dsimp only
      split
      · rename_i hnext
        exact h.short hp' (Or.inl hnext)
      · rename_i c' hnext
        split_ifs with hshort
        · exact h.short hp' (Or.inr hshort)
        · have hmore := h.more s c p c' hp' hnext
          have hlen : (items s').length ≤ start c' + full * fuel := by
            rw [hkeeps, hmore, Nat.add_assoc, Nat.add_comm full, ← Nat.mul_succ]
            exact hfuel
          rw [ih hlen, h.front hp' hnext, hkeeps]

end
end Foundation.Paging
