import Mathlib.Algebra.Order.Field.Basic
import Mathlib.Tactic.Linarith
import Protek.Foundation.Trace

/-! # Stocks that fill along a curve

A stock is drawn from at certain times and fills in between, by no more than a curve rises.
What is drawn in a window is then bounded by what the stock can hold and the rise of the
curve over the window.
-/
namespace Foundation.Metering

/-- What is read off a run: the stock and the time it was last filled at, and when and how much a step draws. -/
structure Meter (σ α τ K : Type*) where
  stock : σ → K
  last : σ → τ
  time : Transition σ α → τ
  out : Transition σ α → K

variable {σ α τ K : Type*} [LinearOrder τ] [Field K] [LinearOrder K] (m : Meter σ α τ K) (F : τ → K)

/-- A step that fills the stock up to its time and then draws from it. -/
structure Draws (t : Transition σ α) : Prop where
  forward : m.last t.before ≤ m.time t
  stamped : m.last t.after = m.time t
  solvent : 0 ≤ m.stock t.after
  paid : m.out t + m.stock t.after ≤ m.stock t.before + (F (m.time t) - F (m.last t.before))

/-- What is drawn from `a` to `b`. -/
def drawn (a b : τ) (ts : List (Transition σ α)) : K :=
  ((ts.filter (fun t => a ≤ m.time t ∧ m.time t ≤ b)).map m.out).sum

/-- The window before, while and after a run is in it. -/
structure Window (c : K) (a b : τ) (ts : List (Transition σ α)) (s : σ) : Prop where
  early : m.last s < a → drawn m a b ts = 0
  inside : a ≤ m.last s → m.last s ≤ b → drawn m a b ts + m.stock s ≤ c + (F (m.last s) - F a)
  bound : drawn m a b ts ≤ c + (F b - F a)

variable {m F} {a b : τ} {c : K}

omit [LinearOrder K] in
theorem drawn_concat (ts : List (Transition σ α)) (t : Transition σ α) :
    drawn m a b (ts ++ [t]) = drawn m a b ts + if a ≤ m.time t ∧ m.time t ≤ b then m.out t else 0 := by
  rw [drawn, List.filter_append, List.map_append, List.sum_append, drawn]
  by_cases h : a ≤ m.time t ∧ m.time t ≤ b
  · simp [h]
  · simp [h]

variable [IsStrictOrderedRing K]

/-- Draws at the very start of the window only add to what is drawn after it. -/
theorem drawn_after_le {ts : List (Transition σ α)} (h : ∀ t ∈ ts, m.time t = a → 0 ≤ m.out t) :
    ((ts.filter (fun t => a < m.time t ∧ m.time t ≤ b)).map m.out).sum ≤ drawn m a b ts := by
  induction ts with
  | nil => exact le_rfl
  | cons t ts ih =>
    have hrest := ih (fun t' ht' => h t' (List.mem_cons_of_mem _ ht'))
    rw [drawn] at hrest ⊢
    rw [List.filter_cons, List.filter_cons]
    by_cases hafter : a < m.time t ∧ m.time t ≤ b
    · have hin : a ≤ m.time t ∧ m.time t ≤ b := ⟨hafter.1.le,hafter.2⟩
      rw [if_pos (decide_eq_true hafter), if_pos (decide_eq_true hin), List.map_cons, List.map_cons, List.sum_cons, List.sum_cons]
      exact add_le_add_right hrest _
    · rw [if_neg (by simpa using hafter)]
      split
      · next hin =>
        have hstart : m.time t = a := by
          simp only [decide_eq_true_eq] at hin
          exact le_antisymm (not_lt.mp (fun hlt => hafter ⟨hlt,hin.2⟩)) hin.1
        have hout := h t List.mem_cons_self hstart
        rw [List.map_cons, List.sum_cons]
        linarith
      · exact hrest

theorem Window.nil {s : σ} (hF : Monotone F) (hab : a ≤ b) (h0 : 0 ≤ m.stock s) (hc : m.stock s ≤ c) : Window m F c a b [] s where
  early _ := rfl
  inside ha _ := by
    have hrise := hF ha
    simp only [drawn, List.filter_nil, List.map_nil, List.sum_nil]
    linarith
  bound := by
    have hrise := hF hab
    simp only [drawn, List.filter_nil, List.map_nil, List.sum_nil]
    linarith

/-- A step keeps to the window; the first one in it may find the stock as full as it gets. -/
theorem Window.snoc {ts : List (Transition σ α)} {t : Transition σ α} (hF : Monotone F) (h : Window m F c a b ts t.before)
    (hd : Draws m F t) (hcap : m.last t.before < a → m.out t + m.stock t.after ≤ c) : Window m F c a b (ts ++ [t]) t.after := by
  obtain ⟨hearly,hinside,hbound⟩ := h
  obtain ⟨hforward,hstamped,hsolvent,hpaid⟩ := hd
  have hin : a ≤ m.time t → m.time t ≤ b → drawn m a b ts + m.out t + m.stock t.after ≤ c + (F (m.time t) - F a) := by
    intro ha hb
    rcases lt_or_ge (m.last t.before) a with hlt | hge
    · have hfirst := hcap hlt
      have hrise := hF ha
      rw [hearly hlt]
      linarith
    · have hsofar := hinside hge (hforward.trans hb)
      linarith
  refine ⟨fun hlt => ?_,fun ha hb => ?_,?_⟩
  · rw [hstamped] at hlt
    rw [drawn_concat, if_neg (fun h => absurd h.1 (not_le.mpr hlt)), hearly (hforward.trans_lt hlt), add_zero]
  · rw [hstamped] at ha hb ⊢
    rw [drawn_concat, if_pos ⟨ha,hb⟩]
    exact hin ha hb
  · rw [drawn_concat]
    split
    · next hmem =>
      have htotal := hin hmem.1 hmem.2
      have hrise := hF hmem.2
      linarith
    · rwa [add_zero]

/-- Along a run of such steps the draws of a window are bounded by the stock at its start, or the most that the first
step in it finds, and the rise of the curve. -/
theorem drawn_le {step : σ → α → σ → Prop} {init s : σ} {ts : List (Transition σ α)} (h : Trace step init ts s)
    (hF : Monotone F) (hab : a ≤ b) (h0 : 0 ≤ m.stock init) (hc : m.stock init ≤ c) (hd : ∀ t ∈ ts, Draws m F t)
    (hcap : ∀ t ∈ ts, m.last t.before < a → m.out t + m.stock t.after ≤ c) : drawn m a b ts ≤ c + (F b - F a) := by
  suffices hw : Window m F c a b ts s from hw.bound
  induction h with
  | nil => exact .nil hF hab h0 hc
  | @snoc ts s u e h hs ih =>
    have hbefore := ih (fun t ht => hd t (List.mem_append_left _ ht)) (fun t ht => hcap t (List.mem_append_left _ ht))
    exact Window.snoc (t := ⟨s,e,u⟩) hF hbefore (hd _ (by simp)) (hcap _ (by simp))

end Foundation.Metering
