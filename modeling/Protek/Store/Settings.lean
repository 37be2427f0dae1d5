import Mathlib.Logic.Function.Basic
import Protek.Foundation.PyText

/-! # The settings table

Texts by key. A setting that was never written is absent, and one that was cleared is
the empty text.
-/
namespace Protek.Store
open Foundation.PyText

abbrev Settings := String → Option String

namespace Settings

/-- `set_setting`. -/
def set (s : Settings) (key value : String) : Settings := Function.update s key (some value)

/-- `get_setting(key) or ""`. -/
def text (s : Settings) (key : String) : String := orElse (s key) ""

/-- `(get_setting(key) or "0") == "1"`. -/
def flag (s : Settings) (key : String) : Bool := orElse (s key) "0" = "1"

variable {s : Settings} {key k value : String}

theorem set_self : (s.set key value) key = some value := Function.update_self ..

theorem set_of_ne (h : k ≠ key) : (s.set key value) k = s k := Function.update_of_ne h ..

@[simp] theorem text_set_self : (s.set key value).text key = value := by
  rw [text, set_self, orElse]
  split
  · rename_i h
    exact h.symm
  · rfl

theorem text_set_of_ne (h : k ≠ key) : (s.set key value).text k = s.text k := by rw [text, set_of_ne h, text]

@[simp] theorem flag_set_one : (s.set key "1").flag key = true := by
  rw [flag, set_self]
  rfl

@[simp] theorem flag_set_zero : (s.set key "0").flag key = false := by
  rw [flag, set_self]
  rfl

theorem flag_set_of_ne (h : k ≠ key) : (s.set key value).flag k = s.flag k := by rw [flag, set_of_ne h, flag]

end Settings

end Protek.Store
