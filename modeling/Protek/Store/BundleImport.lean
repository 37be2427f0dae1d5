import Mathlib.Data.List.ReduceOption
import Protek.Store.Bundle

/-! # Imports row by row

An import commits each row on its own. A row that cannot be inserted is skipped and
counted; nothing takes back the rows before it, or the rows that were deleted first.
-/
namespace Protek.Store.Bundle
open Foundation Foundation.Json Foundation.SqlTable

section
variable (E : Engine) (d : TableDef) (overwrite : Bool)

/-- The object names a row that can be inserted here; only under `overwrite` may it collide with others. -/
def Applies (rows : List Row) (item : Value) (r : Row) : Prop :=
  ∃ members bound seq, item = .obj members ∧ boundMembers members = some bound ∧ Adds E d (verb overwrite) ⟨rows,seq⟩ bound r ∧
    (overwrite = false → ∀ s ∈ rows, collides d r s = false)

/-- The object names no row, or one that gives way to another. -/
def Skips (rows : List Row) (item : Value) : Prop :=
  ∃ members seq, item = .obj members ∧ ∀ bound r, boundMembers members = some bound →
    Adds E d (verb overwrite) ⟨rows,seq⟩ bound r → overwrite = false ∧ ∃ s ∈ rows, collides d r s = true

/-- One object after the other is applied, or skipped. -/
inductive RowByRow : List Row → List Value → List (Option Row) → List Row → Prop
  | nil (rows : List Row) : RowByRow rows [] [] rows
  | skip {rows out : List Row} {item : Value} {items : List Value} {steps : List (Option Row)} :
      Skips E d overwrite rows item → RowByRow rows items steps out → RowByRow rows (item :: items) (none :: steps) out
  | apply {rows out : List Row} {item : Value} {items : List Value} {steps : List (Option Row)} {r : Row} :
      Applies E d overwrite rows item r → RowByRow (rows.filter (fun s => !collides d r s) ++ [r]) items steps out →
      RowByRow rows (item :: items) (some r :: steps) out

end

/-- The counts of a table after its loop. -/
structure Counted (overwrite : Bool) (before after : Counts) (steps : List (Option Row)) : Prop where
  skipped : after.skipped = before.skipped + steps.count none
  inserted : after.inserted = before.inserted + if overwrite then 0 else steps.reduceOption.length
  replaced : after.replaced = before.replaced + if overwrite then steps.reduceOption.length else 0
  sourceRows : after.sourceRows = before.sourceRows

section
variable {E : Engine} {d : TableDef} {overwrite : Bool}

/-- What is not overwritten keeps its rows, and the applied ones come behind. -/
theorem RowByRow.additive {rows out : List Row} {items : List Value} {steps : List (Option Row)}
    (h : RowByRow E d false rows items steps out) : out = rows ++ steps.reduceOption := by
  induction h with
  | nil rows => exact (List.append_nil rows).symm
  | skip _ _ ih => exact ih
  | @apply rows out item items steps r happlies _ ih =>
    obtain ⟨members,bound,seq,-,-,-,hfree⟩ := happlies
    have hkept : rows.filter (fun s => !collides d r s) = rows :=
      List.filter_eq_self.mpr (fun s hs => by rw [hfree rfl s hs]; rfl)
    rw [ih, hkept, List.reduceOption_cons_of_some, List.append_assoc, List.singleton_append]

end

/-! ## A whole bundle -/

section
variable {E : Engine} {overwrite : Bool} {K : Primitives}

end

end Protek.Store.Bundle
