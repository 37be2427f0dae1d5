import Protek.Federation.FirstPull

/-! # Bans of a removed source

Only a pull of the same source ever lifts its rows. Once the row of a source is gone,
what it left active stays active, and what it did not leave cannot come back.
-/
namespace Protek.Federation
open Foundation Foundation.PyText Foundation.Clock Protek.Store Protek.Mirror Protek.Policy

def Adds (name : String) (e : Event) : Prop :=
  ∃ url apiKey confidence now, e = .admin (.add name url apiKey confidence now)

/-- Nothing of the name is left, in the tables or in the tick's list. -/
structure Gone (name : String) (w : World) : Prop where
  unlisted : ∀ r ∈ w.sources.rows, r.name ≠ name
  settled : w.Settled name
  rows : ∀ r ∈ w.db.activeRows, r.originSource ≠ name

section
variable {U : CaseMap} {T : CharTable} {w w' : World} {name : String}

/-- A pull of another source brings no active row of this one. -/
theorem activeRows_pull {src : String} {v v' : Mirror.World} {now : Instant} {a : Answer} {f : Option Fault}
    (h : Mirror.Step src v (.pull now a f) v') (hne : src ≠ name)
    (hrows : ∀ r ∈ v.db.activeRows, r.originSource ≠ name) : ∀ r ∈ v'.db.activeRows, r.originSource ≠ name := by
  rintro r hr rfl
  obtain ⟨hmem,hact⟩ := Db.mem_activeRows.mp hr
  have hfind : v'.db.decisions.find (r.originSource,r.identity) = some r := KeyedTable.find_eq_some.mpr ⟨hmem,rfl⟩
  rw [find_pull h hne] at hfind
  exact hrows r (Db.mem_activeRows.mpr ⟨(KeyedTable.find_eq_some.mp hfind).1,hact⟩) rfl

theorem Gone.step {e : Event} (hs : Step U T w e w') (h : Gone name w) (hadd : ¬ Adds name e) : Gone name w' := by
  cases hs with
  | lapiAdd hunused => exact ⟨h.unlisted,h.settled,h.rows⟩
  | lapiRemove => exact ⟨h.unlisted,h.settled,h.rows⟩
  | @admin op =>
    refine ⟨fun r hr => ?_,h.settled,h.rows⟩
    rcases Sources.mem_perform hr with ⟨q,hq,_,hname,_⟩ | ⟨_,url,apiKey,confidence,now,rfl,_,rfl⟩
    · rw [← hname]
      exact h.unlisted q hq
    · rintro rfl
      exact hadd ⟨url,apiKey,confidence,now,rfl⟩
  | tick _ => exact ⟨h.unlisted,fun src hsrc => h.unlisted src (Sources.mem_active hsrc),h.rows⟩
  | @pull src now a f v s hsrc hpull hrec =>
    refine ⟨?_,fun q hq => h.settled q (List.mem_of_mem_erase hq),?_⟩
    · intro r hr
      obtain ⟨q,hq,_,hname,_⟩ := hrec.descends r hr
      rw [← hname]
      exact h.unlisted q hq
    · exact activeRows_pull hpull (h.settled src hsrc) h.rows
  | @cycle now =>
    refine ⟨h.unlisted,h.settled,?_⟩
    have hrows : (desiredFromDb U T w.db now).2.activeRows = w.db.activeRows := by
      unfold Db.activeRows
      rw [decisions_desiredFromDb]
    change ∀ r ∈ (desiredFromDb U T w.db now).2.activeRows, r.originSource ≠ name
    rw [hrows]
    exact h.rows

end

end Protek.Federation
