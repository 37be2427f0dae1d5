import Mathlib.Logic.Function.Basic
import Protek.Foundation.Trace

/-! # Read-modify-write without a lock

Two callers update one shared value: each reads it, computes, and writes the whole
result back. A complete run is serial, or both reads come before both writes, and
then the first write is gone.
-/
namespace Foundation.ReadModifyWrite

inductive Caller
  | first
  | second
  deriving DecidableEq, Repr

def Caller.other : Caller → Caller
  | .first => .second
  | .second => .first

theorem Caller.eq_or_other (c d : Caller) : d = c ∨ d = c.other := by
  cases c <;> cases d <;> simp [Caller.other]

theorem Caller.other_ne (c : Caller) : c.other ≠ c := by cases c <;> simp [Caller.other]

theorem Caller.forall_iff {p : Caller → Prop} (c : Caller) : (∀ d, p d) ↔ p c ∧ p c.other := by
  constructor
  · exact fun h => ⟨h c,h c.other⟩
  · rintro ⟨hc,ho⟩ d
    rcases c.eq_or_other d with rfl | rfl
    · exact hc
    · exact ho

theorem Caller.exists_iff {p : Caller → Prop} (c : Caller) : (∃ d, p d) ↔ p c ∨ p c.other := by
  have h := c.forall_iff (p := fun d => ¬ p d)
  rw [← not_iff_not]
  push Not
  exact h

inductive Call (α : Type*)
  | idle
  | holding (seen : α)
  | finished

structure State (α : Type*) where
  value : α
  calls : Caller → Call α

inductive Action
  | read (c : Caller)
  | write (c : Caller)
  deriving DecidableEq, Repr

variable {α : Type*}

@[simp] theorem update_other (g : Caller → Call α) (c : Caller) (x : Call α) :
    Function.update g c x c.other = g c.other := Function.update_of_ne c.other_ne x g

@[simp] theorem update_of_other (g : Caller → Call α) (c : Caller) (x : Call α) :
    Function.update g c.other x c = g c := Function.update_of_ne c.other_ne.symm x g

def start (v : α) : State α := ⟨v,fun _ => .idle⟩

def State.Finished (s : State α) : Prop := ∀ c, s.calls c = .finished

/-- `f c` is what the caller `c` makes of the value it has read. -/
inductive Step (f : Caller → α → α) : State α → Action → State α → Prop
  | read {s : State α} {c : Caller} (h : s.calls c = .idle) :
      Step f s (.read c) { s with calls := Function.update s.calls c (.holding s.value) }
  | write {s : State α} {c : Caller} {seen : α} (h : s.calls c = .holding seen) :
      Step f s (.write c) ⟨f c seen,Function.update s.calls c .finished⟩

def serial (c : Caller) : List Action := [.read c,.write c,.read c.other,.write c.other]

/-- Both callers read, and then `w` is the first to write. -/
def overlapped (r w : Caller) : List Action := [.read r,.read r.other,.write w,.write w.other]

abbrev actions (ts : List (Transition (State α) Action)) : List Action := ts.map Transition.label

variable {f : Caller → α → α} {v : α}

/-- How far two calls can have got, with the actions taken so far. -/
inductive Progress (f : Caller → α → α) (v : α) (as : List Action) (s : State α) : Prop
  | none (ha : as = []) (hv : s.value = v) (hc : ∀ c, s.calls c = .idle)
  | oneRead (c : Caller) (ha : as = [.read c]) (hv : s.value = v) (hc : s.calls c = .holding v)
      (ho : s.calls c.other = .idle)
  | oneDone (c : Caller) (ha : as = [.read c,.write c]) (hv : s.value = f c v) (hc : s.calls c = .finished)
      (ho : s.calls c.other = .idle)
  | bothRead (r : Caller) (ha : as = [.read r,.read r.other]) (hv : s.value = v) (hc : ∀ c, s.calls c = .holding v)
  | serialRead (c : Caller) (ha : as = [.read c,.write c,.read c.other]) (hv : s.value = f c v)
      (hc : s.calls c = .finished) (ho : s.calls c.other = .holding (f c v))
  | overlapWrite (r w : Caller) (ha : as = [.read r,.read r.other,.write w]) (hv : s.value = f w v)
      (hc : s.calls w = .finished) (ho : s.calls w.other = .holding v)
  | serialDone (c : Caller) (ha : as = serial c) (hv : s.value = f c.other (f c v)) (hc : ∀ c, s.calls c = .finished)
  | overlapDone (r w : Caller) (ha : as = overlapped r w) (hv : s.value = f w.other v) (hc : ∀ c, s.calls c = .finished)

/-- One action moves two calls on. -/
theorem Progress.step {as : List Action} {s t : State α} {a : Action} (h : Progress f v as s) (hs : Step f s a t) :
    Progress f v (as ++ [a]) t := by
  cases hs with
  | @read d hd =>
    cases h with
    | none ha hv hc => exact .oneRead d (by simp [ha]) hv (by simp [hv]) (by simp [hc])
    | oneRead c ha hv hc ho =>
      -- the second read, before any write
      rcases c.eq_or_other d with rfl | rfl
      · cases hd.symm.trans hc
      · exact .bothRead c (by simp [ha]) hv ((c.forall_iff).mpr ⟨by simp [hc],by simp [hv]⟩)
    | oneDone c ha hv hc ho =>
      rcases c.eq_or_other d with rfl | rfl
      · cases hd.symm.trans hc
      · exact .serialRead c (by simp [ha]) hv (by simp [hc]) (by simp [hv])
    | bothRead r ha hv hc => cases hd.symm.trans (hc d)
    | serialRead c ha hv hc ho =>
      rcases c.eq_or_other d with rfl | rfl
      · cases hd.symm.trans hc
      · cases hd.symm.trans ho
    | overlapWrite r w ha hv hc ho =>
      rcases w.eq_or_other d with rfl | rfl
      · cases hd.symm.trans hc
      · cases hd.symm.trans ho
    | serialDone c ha hv hc => cases hd.symm.trans (hc d)
    | overlapDone r w ha hv hc => cases hd.symm.trans (hc d)
  | @write d seen hd =>
    cases h with
    | none ha hv hc => cases hd.symm.trans (hc d)
    | oneRead c ha hv hc ho =>
      rcases c.eq_or_other d with rfl | rfl
      · cases hd.symm.trans hc
        exact .oneDone d (by simp [ha]) rfl (by simp) (by simp [ho])
      · cases hd.symm.trans ho
    | oneDone c ha hv hc ho =>
      rcases c.eq_or_other d with rfl | rfl
      · cases hd.symm.trans hc
      · cases hd.symm.trans ho
    | bothRead r ha hv hc =>
      cases hd.symm.trans (hc d)
      exact .overlapWrite r d (by simp [ha]) rfl (by simp) (by simp [hc])
    | serialRead c ha hv hc ho =>
      rcases c.eq_or_other d with rfl | rfl
      · cases hd.symm.trans hc
      · cases hd.symm.trans ho
        exact .serialDone c (by simp [ha, serial]) rfl ((c.forall_iff).mpr ⟨by simp [hc],by simp⟩)
    | overlapWrite r w ha hv hc ho =>
      rcases w.eq_or_other d with rfl | rfl
      · cases hd.symm.trans hc
      · cases hd.symm.trans ho
        exact .overlapDone r w (by simp [ha, overlapped]) rfl ((w.forall_iff).mpr ⟨by simp [hc],by simp⟩)
    | serialDone c ha hv hc => cases hd.symm.trans (hc d)
    | overlapDone r w ha hv hc => cases hd.symm.trans (hc d)

theorem progress_of_trace {ts : List (Transition (State α) Action)} {s : State α}
    (h : Trace (Step f) (start v) ts s) : Progress f v (actions ts) s := by
  induction h with
  | nil => exact .none rfl rfl (fun _ => rfl)
  | snoc h hs ih =>
    rw [actions, List.map_append, List.map_singleton]
    exact ih.step hs

/-- Two complete calls ran one after the other, or the first write is lost. -/
theorem finished_cases {ts : List (Transition (State α) Action)} {s : State α}
    (h : Trace (Step f) (start v) ts s) (hf : s.Finished) :
    (∃ c, actions ts = serial c ∧ s.value = f c.other (f c v)) ∨
    ∃ r w, actions ts = overlapped r w ∧ s.value = f w.other v := by
  cases progress_of_trace h with
  | none ha hv hc => cases (hc .first).symm.trans (hf .first)
  | oneRead c ha hv hc ho => cases hc.symm.trans (hf c)
  | oneDone c ha hv hc ho => cases ho.symm.trans (hf c.other)
  | bothRead r ha hv hc => cases (hc .first).symm.trans (hf .first)
  | serialRead c ha hv hc ho => cases ho.symm.trans (hf c.other)
  | overlapWrite r w ha hv hc ho => cases ho.symm.trans (hf w.other)
  | serialDone c ha hv hc => exact Or.inl ⟨c,ha,hv⟩
  | overlapDone r w ha hv hc => exact Or.inr ⟨r,w,ha,hv⟩

/-- Every overlapped order of the four actions is a run. -/
theorem exists_overlapped (f : Caller → α → α) (v : α) (r w : Caller) :
    ∃ ts s, Trace (Step f) (start v) ts s ∧ s.Finished ∧ actions ts = overlapped r w := by
  have h1 := Trace.single (Step.read (f := f) (s := start v) (c := r) rfl)
  have h2 := h1.snoc (Step.read (f := f) (c := r.other) (update_other _ _ _))
  have hboth : ∀ c, Function.update (Function.update (start v).calls r (.holding v)) r.other (.holding v) c = .holding v :=
    (r.forall_iff).mpr ⟨by simp,by simp⟩
  have h3 := h2.snoc (Step.write (f := f) (c := w) (hboth w))
  have h4 := h3.snoc (@Step.write _ f _ w.other v ((update_other _ _ _).trans (hboth w.other)))
  refine ⟨_,_,h4,?_,rfl⟩
  exact (w.forall_iff).mpr ⟨by simp,by simp⟩

end Foundation.ReadModifyWrite
