import Protek.Alerts.Alternation

/-! # Latches

A machine keeps whether it has alerted. If each step sends nothing and leaves that as it
was, or sends the edge that it then turns to, the edges of a run take turns.
-/
namespace Protek.Alerts
open Foundation

/-- What a step does to a latch, next to what it sends. -/
inductive LatchMove : Bool → Bool → List Edge → Prop
  | kept (up : Bool) : LatchMove up up []
  | fired : LatchMove false true [.firing]
  | resolved : LatchMove true false [.resolved]

theorem LatchMove.step {up up' : Bool} {sent edges : List Edge} (h : LatchMove up up' edges)
    (hflag : up = flagOf (nextEdge .firing sent)) (hsent : Alternates .firing sent) :
    up' = flagOf (nextEdge .firing (sent ++ edges)) ∧ Alternates .firing (sent ++ edges) := by
  rw [nextEdge_append, alternates_append]
  cases h with
  | kept => exact ⟨hflag,hsent,trivial⟩
  | fired =>
    have hturn : Edge.firing = nextEdge .firing sent := flagOf_injective hflag
    exact ⟨rfl,hsent,hturn,trivial⟩
  | resolved =>
    have hturn : Edge.resolved = nextEdge .firing sent := flagOf_injective hflag
    exact ⟨rfl,hsent,hturn,trivial⟩

/-- The edges of a run of a latch take turns, and the latch says whose turn it is. -/
theorem latch_alternates {σ α : Type*} {step : σ → α → σ → Prop} {init s : σ} {ts : List (Transition σ α)}
    {up : σ → Bool} {edges : Transition σ α → List Edge} (h : Trace step init ts s) (h0 : up init = false)
    (hmove : ∀ t ∈ ts, LatchMove (up t.before) (up t.after) (edges t)) :
    up s = flagOf (nextEdge .firing (ts.flatMap edges)) ∧ Alternates .firing (ts.flatMap edges) := by
  induction h with
  | nil => exact ⟨h0,trivial⟩
  | @snoc ts s s' a h hs ih =>
    obtain ⟨hflag,hsent⟩ := ih (fun t ht => hmove t (List.mem_append_left _ ht))
    rw [List.flatMap_append, List.flatMap_singleton]
    exact (hmove ⟨s,a,s'⟩ (by simp)).step hflag hsent

end Protek.Alerts
