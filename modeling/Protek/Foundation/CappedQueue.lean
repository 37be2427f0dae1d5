import Protek.Foundation.Trace
import Mathlib.Data.List.Basic

/-! # A queue served from its front, with refusals

Each round offers the first `cap` keys of a queue. A refused key stays where it
stands; an accepted one leaves, and with it every key of the same normal form.
The queue is cleared of accepted keys in finitely many rounds exactly when no
accepted key stands behind `cap` keys that are refused for good.
-/
namespace Foundation.CappedQueue
variable {K N : Type*} [DecidableEq N] (norm : K → N) (refuses : K → Bool) (cap : ℕ)

def admitted (q : List K) : List K := (q.take cap).filter (fun k => !refuses k)

def next (q : List K) : List K := q.filter (fun k => norm k ∉ (admitted refuses cap q).map norm)

/-- The keys of a prefix that nothing in the prefix can clear: no accepted key has their normal form. -/
def stuck (pre : List K) : List K := pre.filter (fun k => ∀ j ∈ pre, norm j = norm k → refuses j = true)

def Cleared (q : List K) : Prop := ∀ k ∈ q, refuses k = true

/-- Fewer than `cap` stuck keys stand before each accepted key that is the first of its normal form. -/
def Uncrowded (q : List K) : Prop :=
  ∀ pre p post, q = pre ++ p :: post → refuses p = false → (∀ j ∈ pre, norm j = norm p → refuses j = true) →
    (stuck norm refuses pre).length < cap

variable {norm refuses cap}

theorem next_sublist (q : List K) : (next norm refuses cap q).Sublist q := List.filter_sublist

theorem mem_admitted {q : List K} {k : K} :
    k ∈ admitted refuses cap q ↔ k ∈ q.take cap ∧ refuses k = false := by
  simp [admitted]

theorem next_length_lt {q : List K} {k : K} (hk : k ∈ admitted refuses cap q) :
    (next norm refuses cap q).length < q.length := by
  have hmem : k ∈ q := List.mem_of_mem_take (mem_admitted.mp hk).1
  refine List.length_filter_lt_length_iff_exists.mpr ⟨k,hmem,?_⟩
  simpa using ⟨k,hk,rfl⟩

/-- Taking the front of a list away by its keys leaves the rest. -/
theorem filter_not_mem_take {f : K → N} {l : List K} (h : (l.map f).Nodup) :
    l.filter (fun k => f k ∉ (l.map f).take cap) = l.drop cap := by
  obtain ⟨_,_,hdisj⟩ := List.nodup_append.mp (by rwa [← List.take_append_drop cap (l.map f)] at h)
  have hfront : (l.take cap).filter (fun k => f k ∉ (l.map f).take cap) = [] := by
    refine List.filter_eq_nil_iff.mpr (fun k hk => ?_)
    have hmem : f k ∈ (l.map f).take cap := by
      rw [← List.map_take]
      exact List.mem_map_of_mem hk
    simpa using hmem
  have hback : (l.drop cap).filter (fun k => f k ∉ (l.map f).take cap) = l.drop cap := by
    refine List.filter_eq_self.mpr (fun k hk => decide_eq_true (fun hmem => ?_))
    have hk' : f k ∈ (l.map f).drop cap := by
      rw [← List.map_drop]
      exact List.mem_map_of_mem hk
    exact hdisj _ hmem _ hk' rfl
  calc l.filter (fun k => f k ∉ (l.map f).take cap)
      = (l.take cap ++ l.drop cap).filter (fun k => f k ∉ (l.map f).take cap) := by rw [List.take_append_drop]
    _ = l.drop cap := by rw [List.filter_append, hfront, hback, List.nil_append]

theorem stuck_filter (keep : N → Bool) (pre : List K) :
    stuck norm refuses (pre.filter (fun k => keep (norm k))) =
      (stuck norm refuses pre).filter (fun k => keep (norm k)) := by
  symm
  rw [stuck, stuck, List.filter_comm]
  apply List.filter_congr
  intro k hk
  obtain ⟨_,hkeep⟩ := List.mem_filter.mp hk
  apply decide_eq_decide.mpr
  constructor
  · intro h j hj he
    exact h j (List.mem_filter.mp hj).1 he
  · intro h j hj he
    exact h j (List.mem_filter.mpr ⟨hj,by rw [he]; exact hkeep⟩) he

/-- The first accepted key of an uncrowded queue is within reach of the next round. -/
theorem exists_admitted {q : List K} (hq : Uncrowded norm refuses cap q) (hc : ¬ Cleared refuses q) :
    ∃ k, k ∈ admitted refuses cap q := by
  have hsome : (q.find? (fun k => !refuses k)).isSome = true := by
    simp only [Cleared, not_forall] at hc
    obtain ⟨k,hk,hr⟩ := hc
    exact List.find?_isSome.mpr ⟨k,hk,by simpa using hr⟩
  obtain ⟨p,hp⟩ := Option.isSome_iff_exists.mp hsome
  obtain ⟨hpr,pre,post,rfl,hpre⟩ := List.find?_eq_some_iff_append.mp hp
  have hrp : refuses p = false := by simpa using hpr
  have hall : ∀ j ∈ pre, refuses j = true := fun j hj => by simpa using hpre j hj
  -- nothing before the first accepted key is accepted, so the whole prefix is stuck
  have hstuck : stuck norm refuses pre = pre :=
    List.filter_eq_self.mpr (fun k _ => by simpa using fun j hj _ => hall j hj)
  have hlt : pre.length < cap := hstuck ▸ hq pre p post rfl hrp (fun j hj _ => hall j hj)
  refine ⟨p,mem_admitted.mpr ⟨?_,hrp⟩⟩
  rw [List.take_append, List.take_of_length_le hlt.le]
  obtain ⟨m,hm⟩ : ∃ m, cap - pre.length = m + 1 := ⟨cap - pre.length - 1,by omega⟩
  simp [hm]

theorem Uncrowded.next {q : List K} (hq : Uncrowded norm refuses cap q) :
    Uncrowded norm refuses cap (next norm refuses cap q) := by
  intro pre' p post' he hrp hfirst
  obtain ⟨pre,rest,hsplit,hpre,hrest⟩ := List.filter_eq_append_iff.mp he
  obtain ⟨gap,post,hgap,hdropped,hkeep,hpost⟩ := List.filter_eq_cons_iff.mp hrest
  let keep : N → Bool := fun n => n ∉ (admitted refuses cap q).map norm
  have hpre' : (pre ++ gap).filter (fun k => keep (norm k)) = pre' := by
    have hg : gap.filter (fun k => keep (norm k)) = [] := List.filter_eq_nil_iff.mpr hdropped
    rw [List.filter_append, hg, List.append_nil]
    exact hpre
  have hfirst' : ∀ j ∈ pre ++ gap, norm j = norm p → refuses j = true := by
    intro j hj hn
    refine hfirst j ?_ hn
    rw [← hpre']
    exact List.mem_filter.mpr ⟨hj,by rw [hn]; exact hkeep⟩
  have hlt := hq (pre ++ gap) p post (by rw [hsplit, hgap, List.append_assoc]) hrp hfirst'
  rw [← hpre', stuck_filter keep]
  exact (List.length_filter_le _ _).trans_lt hlt

/-- Once `cap` stuck keys stand before an accepted key, they stand there after every round. -/
theorem crowded_next {q : List K} (hq : ¬ Uncrowded norm refuses cap q) :
    ¬ Uncrowded norm refuses cap (next norm refuses cap q) := by
  simp only [Uncrowded, not_forall, not_lt] at hq ⊢
  obtain ⟨pre,p,post,rfl,hrp,hfirst,hcap⟩ := hq
  let adm := admitted refuses cap (pre ++ p :: post)
  have hlen : cap ≤ pre.length := hcap.trans (List.length_filter_le _ _)
  have hadm : ∀ a ∈ adm, a ∈ pre ∧ refuses a = false := by
    intro a ha
    obtain ⟨hmem,hr⟩ := mem_admitted.mp ha
    rw [List.take_append_of_le_length hlen] at hmem
    exact ⟨List.mem_of_mem_take hmem,hr⟩
  let keep : N → Bool := fun n => n ∉ adm.map norm
  have hkp : keep (norm p) = true := by
    simp only [keep, decide_eq_true_eq, List.mem_map, not_exists, not_and]
    intro a ha hn
    have := hfirst a (hadm a ha).1 hn
    rw [(hadm a ha).2] at this
    cases this
  have hks : ∀ k ∈ stuck norm refuses pre, keep (norm k) = true := by
    intro k hk
    simp only [keep, decide_eq_true_eq, List.mem_map, not_exists, not_and]
    intro a ha hn
    have hno : ∀ j ∈ pre, norm j = norm k → refuses j = true := by simpa using (List.mem_filter.mp hk).2
    have := hno a (hadm a ha).1 hn
    rw [(hadm a ha).2] at this
    cases this
  refine ⟨pre.filter (fun k => keep (norm k)),p,post.filter (fun k => keep (norm k)),?_,hrp,?_,?_⟩
  · change List.filter (fun k => keep (norm k)) (pre ++ p :: post) = _
    rw [List.filter_append, List.filter_cons, if_pos hkp]
  · intro j hj
    exact hfirst j (List.mem_filter.mp hj).1
  · rw [stuck_filter keep, List.filter_eq_self.mpr hks]
    exact hcap

theorem not_cleared_of_crowded {q : List K} (hq : ¬ Uncrowded norm refuses cap q) : ¬ Cleared refuses q := by
  intro hc
  apply hq
  intro pre p post he hrp _
  have := hc p (he ▸ by simp)
  rw [hrp] at this
  cases this

theorem Cleared.next {q : List K} (hq : Cleared refuses q) : Cleared refuses (next norm refuses cap q) :=
  fun k hk => hq k ((next_sublist q).subset hk)

/-- Served round after round, a queue is cleared for good exactly when it starts uncrowded. -/
theorem eventually_cleared_iff (q : ℕ → List K) (hq : ∀ n, q (n + 1) = next norm refuses cap (q n)) :
    (∃ N, ∀ n, N ≤ n → Cleared refuses (q n)) ↔ Uncrowded norm refuses cap (q 0) := by
  constructor
  · rintro ⟨N,hN⟩
    by_contra hc
    have hall : ∀ n, ¬ Uncrowded norm refuses cap (q n) := by
      intro n
      induction n with
      | zero => exact hc
      | succ n ih => exact hq n ▸ crowded_next ih
    exact not_cleared_of_crowded (hall N) (hN N le_rfl)
  · intro h0
    have hall : ∀ n, Uncrowded norm refuses cap (q n) := by
      intro n
      induction n with
      | zero => exact h0
      | succ n ih => exact hq n ▸ ih.next
    obtain ⟨N,hN⟩ := eventually_stable (P := Cleared refuses) List.length q (fun n => by
      by_cases hc : Cleared refuses (q n)
      · exact Or.inl hc
      · obtain ⟨k,hk⟩ := exists_admitted (hall n) hc
        exact Or.inr (hq n ▸ next_length_lt hk))
    exact ⟨N,stable_forever (fun n hn => hq n ▸ hn.next) hN⟩

end Foundation.CappedQueue
