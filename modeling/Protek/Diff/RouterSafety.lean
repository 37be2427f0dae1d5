import Protek.Diff.Router

/-! # What a cycle deletes on a router

The snapshot puts the family before the handle under `.id`, the diff reads `id`
first, where the handle stands bare, and `apply` takes a bare id for IPv4. A removal
therefore deletes whatever row the IPv4 table keeps under that handle.
-/
namespace Protek.Diff
open Foundation Foundation.OrderedDict Foundation.PyText

/-- The entries to remove: the last owned one of each address that nothing desires. -/
def staleBatch (U : CaseMap) (desired : List Decision) (entries : List Entry) (cap : ℕ) : List Entry :=
  ((lastByKey (fun e => normalizeAddr U e.address) (entries.filter (fun e => isOwned e.comment))).filter
    (fun e => normalizeAddr U e.address ∉ desiredNorm U desired ∧ e.eid ≠ "")).take cap

section
variable {U : CaseMap} {R : RouterOs} {listName : String} {dotted : ListRow → Bool} {r : Router}
  {desired : List Decision} {cap : ℕ}

theorem take_toRemove (entries : List Entry) (cap : ℕ) :
    (reconcile U desired entries).toRemove.take cap = (staleBatch U desired entries cap).map Entry.eid := by
  have hitems : ∀ items : List (String × Entry), (∀ p ∈ items, normalizeAddr U p.2.address = p.1) →
      items.filterMap (fun p => if p.1 ∈ desiredNorm U desired then none else if p.2.eid = "" then none else some p.2.eid) =
        ((items.map Prod.snd).filter
          (fun e => normalizeAddr U e.address ∉ desiredNorm U desired ∧ e.eid ≠ "")).map Entry.eid := by
    intro items hkey
    induction items with
    | nil => rfl
    | cons p rest ih =>
      have hp : normalizeAddr U p.2.address = p.1 := hkey p List.mem_cons_self
      have hrest := ih (fun q hq => hkey q (List.mem_cons_of_mem _ hq))
      by_cases hd : p.1 ∈ desiredNorm U desired
      · simp [hp, hd, hrest]
      · by_cases he : p.2.eid = ""
        · simp [hp, hd, he, hrest]
        · simp [hp, hd, he, hrest]
  have hkeys : ∀ p ∈ (ownedByAddr U entries).items, normalizeAddr U p.2.address = p.1 :=
    fun p hp => (lastWith_some (mem_items_ofLast hp)).2
  rw [staleBatch, List.map_take, ← map_snd_ofLast]
  exact congrArg (List.take cap) (hitems _ hkeys)

end

section
variable {U : CaseMap} {R : RouterOs} {listName : String} {dotted : ListRow → Bool} {r : Router}
  {desired : List Decision} {cap : ℕ}

end

/-! ## A handle that both tables have -/

def expiredRow : ListRow := ⟨"*1","crowdsec","2001:db8::1",some "protek:local:ssh-bf:5"⟩

def oneRow (row : ListRow) : AddressList := ⟨[row],List.nodup_singleton _⟩

end Protek.Diff
