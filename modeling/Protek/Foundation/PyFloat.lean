import Protek.Foundation.PyText
import Protek.Foundation.Rounding

/-! # Python's `float`

A finite float is the number its text names, without the rounding to 53 bits. Every
comparison with `nan` is false.
-/
namespace Foundation.PyText
open Foundation.Clock

inductive PyFloat
  | finite (q : ℚ)
  | inf (negative : Bool)
  | nan
  deriving DecidableEq

namespace PyFloat

/-- `x < y` -/
def lt : PyFloat → PyFloat → Bool
  | .finite a, .finite b => a < b
  | .finite _, .inf negative => !negative
  | .inf negative, .finite _ => negative
  | .inf a, .inf b => a && !b
  | _, _ => false

/-- `x <= y` -/
def le : PyFloat → PyFloat → Bool
  | .finite a, .finite b => a ≤ b
  | .finite _, .inf negative => !negative
  | .inf negative, .finite _ => negative
  | .inf a, .inf b => a || !b
  | _, _ => false

/-- `x - q` -/
def sub : PyFloat → ℚ → PyFloat
  | .finite a, q => .finite (a - q)
  | x, _ => x

/-- `x * q` for a positive `q` -/
def scale : PyFloat → ℚ → PyFloat
  | .finite a, q => .finite (a * q)
  | x, _ => x

/-- `max(q, x)`: the first one, unless the second is greater. -/
def max (q : ℚ) (x : PyFloat) : PyFloat := if lt (.finite q) x then x else .finite q

/-- `f"{x:.nf}"` -/
def format (places : ℕ) : PyFloat → String
  | .finite q => fixed places q
  | .inf negative => if negative then "-inf" else "inf"
  | .nan => "nan"

@[simp] theorem lt_finite {a b : ℚ} : lt (.finite a) (.finite b) = true ↔ a < b := decide_eq_true_iff

@[simp] theorem le_finite {a b : ℚ} : le (.finite a) (.finite b) = true ↔ a ≤ b := decide_eq_true_iff

/-- The greater of a number and a float is no `nan`. -/
theorem max_number (q : ℚ) (x : PyFloat) : (∃ r, max q x = .finite r) ∨ max q x = .inf false := by
  unfold max
  split
  · rename_i hlt
    cases x with
    | finite r => exact Or.inl ⟨r,rfl⟩
    | inf negative =>
      cases negative with
      | false => exact Or.inr rfl
      | true => cases hlt
    | nan => cases hlt
  · exact Or.inl ⟨q,rfl⟩

end PyFloat

def mantissaValue (T : CharTable) (cs : List Char) : ℚ :=
  match cs.splitOn '.' with
  | [n] => ((intDigits T n).getD 0 : ℕ)
  | n :: f :: _ => ((intDigits T n).getD 0 : ℕ) + ((intDigits T f).getD 0 : ℕ) / 10 ^ (f.filter (· ≠ '_')).length
  | [] => 0

/-- `float(s)`, `none` where Python raises ValueError. -/
def pyFloat (T : CharTable) (s : String) : Option PyFloat :=
  if pyFloatOk T s then
    let negative : Bool := (strip s).toList.head? = some '-'
    let sign : ℚ := if negative then -1 else 1
    let cs := (unsigned (strip s).toList).map Char.toLower
    if String.ofList cs = "nan" then some .nan
    else if String.ofList cs ∈ ["inf","infinity"] then some (.inf negative)
    else match cs.splitOn 'e' with
      | [m,e] =>
        let n := (intDigits T (unsigned e)).getD 0
        some (.finite (sign * mantissaValue T m * (if e.head? = some '-' then 1 / 10 ^ n else 10 ^ n)))
      | _ => some (.finite (sign * mantissaValue T cs))
  else none

example : pyFloat CharTable.ascii " -1_0.25e-1 " = some (.finite (-41 / 40)) := by decide +kernel
example : (pyFloat CharTable.ascii "-Infinity",pyFloat CharTable.ascii "85%") = (some (.inf true),none) := by decide +kernel

end Foundation.PyText
