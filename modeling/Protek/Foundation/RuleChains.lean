import Mathlib.Data.List.Basic

/-! # Chains of rules

A packet goes through the rules of a chain in their order until one of them decides on
it. A rule may send the packet through another chain and go on behind itself where that
one returns, so a walk need not end; the walks are a relation.
-/
namespace Foundation.RuleChains

inductive Verdict (χ : Type*)
  | accept
  | drop
  | jump (target : χ)
  | back
  | pass
  deriving DecidableEq, Repr

/-- Rules `ρ` of packets `π` in chains `χ`. -/
structure Filter (ρ π χ : Type*) where
  chain : ρ → χ
  applies : ρ → π → Prop
  verdict : ρ → Verdict χ

/-- `dropped i`: by the rule at the place `i`. -/
inductive Outcome
  | accepted
  | dropped (i : ℕ)
  | returned
  deriving DecidableEq, Repr

section
variable {ρ π χ : Type*} (F : Filter ρ π χ) (rules : List ρ) (p : π)

/-- The walk through a chain, from a place in the list of the rules of all chains. -/
inductive Walk : χ → ℕ → Outcome → Prop
  | finish {c : χ} {pos : ℕ} (h : rules.length ≤ pos) : Walk c pos .returned
  | skip {c : χ} {pos : ℕ} {r : ρ} {o : Outcome} (h : rules[pos]? = some r) (hskip : F.chain r ≠ c ∨ ¬ F.applies r p)
      (next : Walk c (pos + 1) o) : Walk c pos o
  | accept {c : χ} {pos : ℕ} {r : ρ} (h : rules[pos]? = some r) (hc : F.chain r = c) (happ : F.applies r p)
      (hv : F.verdict r = .accept) : Walk c pos .accepted
  | drop {c : χ} {pos : ℕ} {r : ρ} (h : rules[pos]? = some r) (hc : F.chain r = c) (happ : F.applies r p)
      (hv : F.verdict r = .drop) : Walk c pos (.dropped pos)
  | into {c target : χ} {pos : ℕ} {r : ρ} {o : Outcome} (h : rules[pos]? = some r) (hc : F.chain r = c) (happ : F.applies r p)
      (hv : F.verdict r = .jump target) (inner : Walk target 0 o) (ho : o ≠ .returned) : Walk c pos o
  | rejoin {c target : χ} {pos : ℕ} {r : ρ} {o : Outcome} (h : rules[pos]? = some r) (hc : F.chain r = c) (happ : F.applies r p)
      (hv : F.verdict r = .jump target) (inner : Walk target 0 .returned) (next : Walk c (pos + 1) o) : Walk c pos o
  | back {c : χ} {pos : ℕ} {r : ρ} (h : rules[pos]? = some r) (hc : F.chain r = c) (happ : F.applies r p)
      (hv : F.verdict r = .back) : Walk c pos .returned
  | pass {c : χ} {pos : ℕ} {r : ρ} {o : Outcome} (h : rules[pos]? = some r) (hc : F.chain r = c) (happ : F.applies r p)
      (hv : F.verdict r = .pass) (next : Walk c (pos + 1) o) : Walk c pos o

/-- No rule of the chain between two places accepts the packet. -/
def Unaccepted (c : χ) (lo hi : ℕ) : Prop :=
  ∀ j r, lo ≤ j → j < hi → rules[j]? = some r → F.chain r = c → F.applies r p → F.verdict r ≠ .accept

/-- The place is come to from another one: in its own chain, or in a chain that a rule jumps to. -/
def Reached (c : χ) (pos i : ℕ) (d : χ) : Prop :=
  (d = c ∧ pos ≤ i ∧ Unaccepted F rules p d pos i) ∨ ((∃ q ∈ rules, F.verdict q = .jump d) ∧ Unaccepted F rules p d 0 i)

variable {F rules p} {c : χ} {pos i : ℕ} {r : ρ} {o : Outcome}

theorem Reached.before {d : χ} (h : Reached F rules p c (pos + 1) i d) (hr : rules[pos]? = some r)
    (hv : F.chain r = c → F.applies r p → F.verdict r ≠ .accept) : Reached F rules p c pos i d := by
  rcases h with ⟨rfl,hle,hfree⟩ | hjump
  · refine Or.inl ⟨rfl,by omega,fun j q hj hji hq hc happ => ?_⟩
    rcases Nat.eq_or_lt_of_le hj with rfl | hlt
    · obtain rfl := Option.some.inj (hr.symm.trans hq)
      exact hv hc happ
    · exact hfree j q hlt hji hq hc happ
  · exact Or.inr hjump

end

end Foundation.RuleChains
