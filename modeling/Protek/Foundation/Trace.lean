import Mathlib.Data.List.Basic
import Mathlib.Order.WellFounded

/-! # Traces of a labelled transition relation

A trace keeps every transition it took, so that a law about a run can name the
state before and after each step. The induction over a trace is done here once:
an invariant kept by the steps that meet a condition holds along every trace
whose steps all meet it, and a law that agrees with the condition at each step
agrees with it along the whole trace.
-/
namespace Foundation

structure Transition (σ α : Type*) where
  before : σ
  label : α
  after : σ

variable {σ α : Type*}

/-- The transitions taken from `init`, oldest first, and the state reached. -/
inductive Trace (step : σ → α → σ → Prop) (init : σ) : List (Transition σ α) → σ → Prop
  | nil : Trace step init [] init
  | snoc {ts : List (Transition σ α)} {s t : σ} {a : α} (h : Trace step init ts s) (hs : step s a t) :
      Trace step init (ts ++ [⟨s,a,t⟩]) t

namespace Trace
variable {step : σ → α → σ → Prop} {init s : σ} {ts : List (Transition σ α)}

theorem single {a : α} {t : σ} (h : step init a t) : Trace step init [⟨init,a,t⟩] t := Trace.nil.snoc h

theorem append {us : List (Transition σ α)} {t : σ} (h : Trace step init ts s) (hus : Trace step s us t) :
    Trace step init (ts ++ us) t := by
  induction hus with
  | nil =>
    rw [List.append_nil]
    exact h
  | snoc _ hs ih =>
    rw [← List.append_assoc]
    exact ih.snoc hs

/-- A trace falls into two at each of its transitions. -/
theorem cut {t : Transition σ α} {us : List (Transition σ α)} (h : Trace step init (ts ++ t :: us) s) :
    Trace step init ts t.before ∧ Trace step t.after us s := by
  generalize hall : ts ++ t :: us = all at h
  induction h generalizing us with
  | nil => simp at hall
  | @snoc vs u v a h hs ih =>
    rcases us.eq_nil_or_concat with rfl | ⟨us,x,rfl⟩
    · obtain ⟨hts,ht⟩ := List.append_inj' hall rfl
      rw [List.singleton_inj.mp ht, hts]
      exact ⟨h,Trace.nil⟩
    · have hsplit : (ts ++ t :: us) ++ [x] = vs ++ [⟨u,a,v⟩] := by simpa using hall
      obtain ⟨hvs,hx⟩ := List.append_inj' hsplit rfl
      obtain ⟨hfront,hback⟩ := ih hvs
      rw [List.concat_eq_append, List.singleton_inj.mp hx]
      exact ⟨hfront,hback.snoc hs⟩

/-- The trace up to one of its transitions. -/
theorem take {t : Transition σ α} {us : List (Transition σ α)} (h : Trace step init (ts ++ t :: us) s) :
    Trace step init ts t.before := h.cut.1

/-- The rest of a trace, after one of its transitions. -/
theorem drop {t : Transition σ α} {us : List (Transition σ α)} (h : Trace step init (ts ++ t :: us) s) :
    Trace step t.after us s := h.cut.2

theorem mem_step (h : Trace step init ts s) : ∀ t ∈ ts, step t.before t.label t.after := by
  induction h with
  | nil => simp
  | snoc h hs ih =>
    intro t ht
    rcases List.mem_append.mp ht with ht | ht
    · exact ih t ht
    · rw [List.mem_singleton.mp ht]
      exact hs

/-- An invariant kept by each step that meets `C` holds along a trace of such steps. -/
theorem invariant {I : σ → Prop} {C : Transition σ α → Prop} (h : Trace step init ts s) (h0 : I init)
    (hkeep : ∀ t : Transition σ α, step t.before t.label t.after → C t → I t.before → I t.after)
    (hC : ∀ t ∈ ts, C t) : I s ∧ ∀ t ∈ ts, I t.before ∧ I t.after := by
  induction h with
  | nil => exact ⟨h0,by simp⟩
  | @snoc ts s u a h hs ih =>
    obtain ⟨hI,hall⟩ := ih (fun t ht => hC t (List.mem_append_left _ ht))
    have hu : I u := hkeep ⟨s,a,u⟩ hs (hC _ (by simp)) hI
    refine ⟨hu,?_⟩
    intro t ht
    rcases List.mem_append.mp ht with ht | ht
    · exact hall t ht
    · rw [List.mem_singleton.mp ht]
      exact ⟨hI,hu⟩

/-- An invariant that every step keeps holds along every trace. -/
theorem always {I : σ → Prop} (h : Trace step init ts s) (h0 : I init)
    (hkeep : ∀ t : Transition σ α, step t.before t.label t.after → I t.before → I t.after) :
    I s ∧ ∀ t ∈ ts, I t.before ∧ I t.after :=
  h.invariant (C := fun _ => True) h0 (fun t hs _ => hkeep t hs) (fun _ _ => trivial)

/-- If at each step out of an invariant state a law is the same as a condition, and the
condition keeps the invariant, then the law holds along a trace exactly when the condition does. -/
theorem forall_iff {I : σ → Prop} {A C G : Transition σ α → Prop} (h : Trace step init ts s) (h0 : I init)
    (hA : ∀ t ∈ ts, A t)
    (hkeep : ∀ t : Transition σ α, step t.before t.label t.after → A t → C t → I t.before → I t.after)
    (hiff : ∀ t : Transition σ α, step t.before t.label t.after → A t → I t.before → (G t ↔ C t)) :
    (∀ t ∈ ts, G t) ↔ ∀ t ∈ ts, C t := by
  have key : ∀ t ∈ ts, (∀ u ∈ ts, C u) ∨ (∀ u ∈ ts, G u) → (G t ↔ C t) := by
    induction h with
    | nil => simp
    | @snoc ts s u a h hs ih =>
      intro t ht hor
      have hor' : (∀ u ∈ ts, C u) ∨ (∀ u ∈ ts, G u) :=
        hor.imp (fun hc v hv => hc v (List.mem_append_left _ hv)) (fun hg v hv => hg v (List.mem_append_left _ hv))
      have hpre := fun v hv => ih (fun t ht => hA t (List.mem_append_left _ ht)) v hv hor'
      rcases List.mem_append.mp ht with ht | ht
      · exact hpre t ht
      · have hC : ∀ v ∈ ts, C v := hor'.elim id (fun hg v hv => (hpre v hv).mp (hg v hv))
        have hI := (h.invariant (C := fun t => A t ∧ C t) h0 (fun t hst hc => hkeep t hst hc.1 hc.2)
          (fun v hv => ⟨hA v (List.mem_append_left _ hv),hC v hv⟩)).1
        rw [List.mem_singleton.mp ht]
        exact hiff ⟨s,a,u⟩ hs (hA _ (by simp)) hI
  constructor
  · intro hG t ht
    exact (key t ht (Or.inr hG)).mp (hG t ht)
  · intro hC t ht
    exact (key t ht (Or.inl hC)).mpr (hC t ht)

/-- A trace seen through a map of the states: each transition is one of the other relation, or changes nothing there. -/
theorem project {σ' α' : Type*} {step' : σ' → α' → σ' → Prop} (φ : σ → σ') (π : Transition σ α → Option α')
    (h : Trace step init ts s) (hsim : ∀ t ∈ ts, (π t = none ∧ φ t.after = φ t.before) ∨
      ∃ b, π t = some b ∧ step' (φ t.before) b (φ t.after)) :
    Trace step' (φ init) (ts.filterMap (fun t => (π t).map (fun b => ⟨φ t.before,b,φ t.after⟩))) (φ s) := by
  induction h with
  | nil => exact .nil
  | @snoc ts s u a h hs ih =>
    have hts := ih (fun t ht => hsim t (List.mem_append_left _ ht))
    rw [List.filterMap_append]
    rcases hsim ⟨s,a,u⟩ (by simp) with ⟨hnone,hsame⟩ | ⟨b,hb,hstep⟩
    · simpa [hnone, ← hsame] using hts
    · simpa [hb] using hts.snoc hstep

end Trace

/-! ## Machines -/

/-- The transitions of a machine that takes the actions one by one. -/
def walk (next : σ → α → σ) : σ → List α → List (Transition σ α)
  | _, [] => []
  | s, a :: actions => ⟨s,a,next s a⟩ :: walk next (next s a) actions

theorem walk_append (next : σ → α → σ) (s : σ) (front back : List α) :
    walk next s (front ++ back) = walk next s front ++ walk next (front.foldl next s) back := by
  induction front generalizing s with
  | nil => rfl
  | cons a front ih => exact congrArg (⟨s,a,next s a⟩ :: ·) (ih (next s a))

theorem trace_of_walk {step : σ → α → σ → Prop} {next : σ → α → σ} {actions : List α} {s : σ}
    (h : ∀ t ∈ walk next s actions, step t.before t.label t.after) : Trace step s (walk next s actions) (actions.foldl next s) := by
  induction actions generalizing s with
  | nil => exact .nil
  | cons a actions ih =>
    have hrest := ih (fun t ht => h t (List.mem_cons_of_mem _ ht))
    exact (Trace.single (h _ List.mem_cons_self)).append hrest

theorem mem_walk {next : σ → α → σ} {actions : List α} {s : σ} {t : Transition σ α} (h : t ∈ walk next s actions) :
    t.label ∈ actions ∧ t.after = next t.before t.label := by
  induction actions generalizing s with
  | nil => exact absurd h List.not_mem_nil
  | cons a actions ih =>
    rcases List.mem_cons.mp h with rfl | h
    · exact ⟨List.mem_cons_self,rfl⟩
    · exact ⟨List.mem_cons_of_mem _ (ih h).1,(ih h).2⟩

theorem walk_trace {step : σ → α → σ → Prop} {next : σ → α → σ} {actions : List α}
    (h : ∀ s, ∀ a ∈ actions, step s a (next s a)) (s : σ) : Trace step s (walk next s actions) (actions.foldl next s) := by
  refine trace_of_walk (fun t ht => ?_)
  obtain ⟨hlabel,hafter⟩ := mem_walk ht
  rw [hafter]
  exact h t.before t.label hlabel

/-- Actions that keep two states related on their own are not seen in the other state's run. -/
theorem foldl_filter_related {R : σ → σ → Prop} {next : σ → α → σ} {visible : α → Bool}
    (hhidden : ∀ s t a, visible a = false → R s t → R (next s a) t)
    (hvisible : ∀ s t a, visible a = true → R s t → R (next s a) (next t a)) {s t : σ} (h : R s t) (actions : List α) :
    R (actions.foldl next s) ((actions.filter visible).foldl next t) := by
  induction actions generalizing s t with
  | nil => exact h
  | cons a actions ih =>
    cases ha : visible a with
    | false =>
      rw [List.filter_cons_of_neg (by simp [ha])]
      exact ih (hhidden s t a ha h)
    | true =>
      rw [List.filter_cons_of_pos ha]
      exact ih (hvisible s t a ha h)

/-! ## Loops -/

/-- What no turn of a loop changes, the loop leaves as it was. -/
theorem foldl_keeps {β γ δ : Type*} (f : β → δ) {turn : β → γ → β} {l : List γ} {b : β}
    (h : ∀ b, ∀ a ∈ l, f (turn b a) = f b) : f (l.foldl turn b) = f b :=
  List.foldlRecOn (motive := fun b' => f b' = f b) l turn rfl (fun b' hb' a ha => (h b' a ha).trans hb')

/-- In a loop, what only one element's turn changes is changed once, from what it was at the start. -/
theorem foldl_own {β γ δ : Type*} {turn : β → γ → β} {l : List γ} {o : γ} (ho : o ∈ l) (hnodup : l.Nodup) {P : β → Prop}
    (hP : ∀ b, ∀ a ∈ l, P b → P (turn b a)) {view : β → δ} (hview : ∀ b, ∀ a ∈ l, a ≠ o → view (turn b a) = view b)
    {b : β} (hb : P b) : ∃ b', P b' ∧ view b' = view b ∧ view (l.foldl turn b) = view (turn b' o) := by
  obtain ⟨front,back,rfl⟩ := List.append_of_mem ho
  rw [List.nodup_append, List.nodup_cons] at hnodup
  obtain ⟨-,⟨hback,-⟩,hfront⟩ := hnodup
  refine ⟨front.foldl turn b,?_,?_,?_⟩
  · exact List.foldlRecOn (motive := P) front turn hb (fun b hb a ha => hP b a (List.mem_append_left _ ha) hb)
  · exact foldl_keeps view (fun b a ha => hview b a (List.mem_append_left _ ha) (hfront a ha o List.mem_cons_self))
  · rw [List.foldl_append, List.foldl_cons]
    exact foldl_keeps view (fun b a ha => hview b a (List.mem_append_right _ (List.mem_cons_of_mem _ ha))
      (fun heq => hback (heq ▸ ha)))

/-! ## What stands since -/

/-- A transition that begins it, and none after that ends it. -/
def StandsSince (B E : Transition σ α → Prop) (ts : List (Transition σ α)) : Prop :=
  ∃ pre t post, ts = pre ++ t :: post ∧ B t ∧ ∀ u ∈ post, ¬ E u

theorem standsSince_concat {B E : Transition σ α → Prop} {ts : List (Transition σ α)} {t : Transition σ α} :
    StandsSince B E (ts ++ [t]) ↔ B t ∨ (StandsSince B E ts ∧ ¬ E t) := by
  constructor
  · rintro ⟨pre,u,post,hts,hB,hE⟩
    rcases post.eq_nil_or_concat with rfl | ⟨post,v,rfl⟩
    · obtain ⟨-,hu⟩ := List.append_inj' hts rfl
      exact Or.inl (List.singleton_inj.mp hu ▸ hB)
    · have hsplit : ts ++ [t] = (pre ++ u :: post) ++ [v] := by simpa using hts
      obtain ⟨hpre,hv⟩ := List.append_inj' hsplit rfl
      rw [List.singleton_inj.mp hv]
      rw [List.concat_eq_append] at hE
      refine Or.inr ⟨⟨pre,u,post,hpre,hB,fun w hw => hE w ?_⟩,hE v ?_⟩
      · exact List.mem_append_left _ hw
      · exact List.mem_append_right _ (List.mem_singleton_self _)
  · rintro (hB | ⟨⟨pre,u,post,rfl,hB,hE⟩,hno⟩)
    · exact ⟨ts,t,[],rfl,hB,fun _ hu => absurd hu List.not_mem_nil⟩
    · refine ⟨pre,u,post ++ [t],by rw [List.append_assoc, List.cons_append],hB,fun w hw => ?_⟩
      rcases List.mem_append.mp hw with hw | hw
      · exact hE w hw
      · rw [List.mem_singleton.mp hw]
        exact hno

/-- What each step begins, or leaves unless it ends it, holds after a trace exactly when it stands. -/
theorem Trace.standsSince_iff {step : σ → α → σ → Prop} {init s : σ} {ts : List (Transition σ α)} {P : σ → Prop}
    {B E : Transition σ α → Prop} (h : Trace step init ts s) (h0 : ¬ P init)
    (hstep : ∀ t : Transition σ α, step t.before t.label t.after → (P t.after ↔ B t ∨ (P t.before ∧ ¬ E t))) :
    P s ↔ StandsSince B E ts := by
  induction h with
  | nil =>
    refine ⟨fun hP => absurd hP h0,?_⟩
    rintro ⟨pre,t,post,hts,-⟩
    cases List.append_eq_nil_iff.mp hts.symm with
    | intro _ hcons => cases hcons
  | @snoc ts s t a _ hs ih => rw [standsSince_concat, ← ih, hstep ⟨s,a,t⟩ hs]

/-! ## Progress by a rank -/

theorem eventually_stable {P : σ → Prop} (rank : σ → ℕ) (s : ℕ → σ)
    (h : ∀ n, P (s n) ∨ rank (s (n + 1)) < rank (s n)) : ∃ N, P (s N) := by
  by_contra hno
  push Not at hno
  have hdrop : ∀ n, rank (s n) + n ≤ rank (s 0) := by
    intro n
    induction n with
    | zero => simp
    | succ n ih =>
      have hn := (h n).resolve_left (hno n)
      omega
  have := hdrop (rank (s 0) + 1)
  omega

/-- A rank that never grows, and falls time and again while `P` has not come. -/
theorem eventually_of_recurrent {P : σ → Prop} (rank : σ → ℕ) (s : ℕ → σ) (hle : ∀ n, rank (s (n + 1)) ≤ rank (s n))
    (h : ∀ n, ∃ m, n ≤ m ∧ (P (s m) ∨ rank (s (m + 1)) < rank (s m))) : ∃ N, P (s N) := by
  have hanti : Antitone (fun n => rank (s n)) := antitone_nat_of_succ_le hle
  suffices ∀ r n, rank (s n) ≤ r → ∃ N, P (s N) from this (rank (s 0)) 0 le_rfl
  intro r
  induction r with
  | zero =>
    intro n hn
    obtain ⟨m,hnm,hP | hlt⟩ := h n
    · exact ⟨m,hP⟩
    · have : rank (s m) ≤ rank (s n) := hanti hnm
      omega
  | succ r ih =>
    intro n hn
    obtain ⟨m,hnm,hP | hlt⟩ := h n
    · exact ⟨m,hP⟩
    · have : rank (s m) ≤ rank (s n) := hanti hnm
      exact ih (m + 1) (by omega)

theorem stable_forever {P : σ → Prop} {s : ℕ → σ} (hkeep : ∀ n, P (s n) → P (s (n + 1)))
    {N : ℕ} (hN : P (s N)) : ∀ n, N ≤ n → P (s n) := by
  intro n hn
  induction n, hn using Nat.le_induction with
  | base => exact hN
  | succ n _ ih => exact hkeep n ih

end Foundation
