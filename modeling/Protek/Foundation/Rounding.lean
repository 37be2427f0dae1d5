import Protek.Foundation.Clock
import Mathlib.Data.Rat.Floor

/-! # Fixed places

`fixed` is Python's `f"{x:.nf}"` of a float, at its value: the nearest text with so many
places, the half to the even one.
-/
namespace Foundation.Clock

def roundEven (q : ℚ) : ℤ :=
  let n := q.floor
  if 1 / 2 < q - n ∨ (q - n = 1 / 2 ∧ n % 2 = 1) then n + 1 else n

def fixed (places : ℕ) (q : ℚ) : String :=
  let n := (roundEven (|q| * 10 ^ places)).toNat
  let whole := toString (n / 10 ^ places)
  (if q < 0 then "-" else "") ++ (if places = 0 then whole else whole ++ "." ++ pad places (n % 10 ^ places))

example : fixed 1 (61 / 12) = "5.1" ∧ fixed 0 (5 / 2) = "2" ∧ fixed 1 (1 / 20) = "0.0" := by decide +kernel

end Foundation.Clock
