import Protek.Foundation.OrderedDict
import Protek.Foundation.PyText

/-! # The diff engine

`reconcile` compares the decisions that should be on a target with the entries
that are on it. Foreign entries, those whose comment lacks the `protek:` marker,
are counted and never proposed for removal.
-/
namespace Protek.Diff
open Foundation Foundation.OrderedDict Foundation.PyText

/-- `lapi_id` and `id` of a decision dict: an integer from the database, a string from a caller. -/
inductive IdValue
  | int (n : ℤ)
  | str (s : String)
  deriving DecidableEq, Repr

/-- `str(a or b or "0")` over two optional ids: 0 and the empty string are false. -/
def IdValue.text : Option IdValue → Option String
  | none => none
  | some (.int n) => if n = 0 then none else some (toString n)
  | some (.str s) => if s = "" then none else some s

structure Decision where
  value : Option String := none
  scope : Option String := none
  scenario : Option String := none
  origin : Option String := none
  originSource : Option String := none
  lapiId : Option IdValue := none
  id : Option IdValue := none
  deriving DecidableEq, Repr

inductive Family
  | v4
  | v6
  deriving DecidableEq, Repr

/-- A raw address-list entry as a target's snapshot returns it; `dotId` is the key `.id`. -/
structure Entry where
  dotId : Option String := none
  id : Option String := none
  numbers : Option String := none
  list : Option String := none
  address : Option String := none
  comment : Option String := none
  family : Option Family := none
  deriving DecidableEq, Repr

def OWNER_PREFIX : String := "protek:"

def sanitize (s : String) : String := strip (replaceChar s ':' '_')

def encodeComment (d : Decision) : String :=
  let src := sanitize (orElse d.originSource "local")
  let scen := sanitize (orElse d.scenario "")
  let lid := sanitize (((IdValue.text d.lapiId).or (IdValue.text d.id)).getD "0")
  OWNER_PREFIX ++ (src ++ (":" ++ (scen ++ (":" ++ lid))))

/-- An empty comment has no prefix, so the test for `None` is the only other one. -/
def isOwned (comment : Option String) : Bool :=
  match comment with
  | some c => startsWith c OWNER_PREFIX
  | none => false

theorem isOwned_encodeComment (d : Decision) : isOwned (some (encodeComment d)) = true :=
  startsWith_append OWNER_PREFIX _

structure ReconcileDiff where
  toAdd : List (String × String) := []
  toRemove : List String := []
  unchanged : ℕ := 0
  foreignKept : ℕ := 0
  deriving DecidableEq, Repr

def ReconcileDiff.changes (d : ReconcileDiff) : ℕ := d.toAdd.length + d.toRemove.length

section
variable (U : CaseMap)

def normalizeAddr (addr : Option String) : String :=
  let a := U.lower (strip (orElse addr ""))
  let a := if endsWith a "/32" then dropEnd a 3 else a
  if endsWith a "/128" then dropEnd a 4 else a

def desiredKey (d : Decision) : String := strip (orElse d.value "")

/-- `desired_by_addr`: the first decision of each non-empty value. -/
def desiredByAddr (desired : List Decision) : OrderedDict String Decision :=
  ofFirst desiredKey (desired.filter (fun d => desiredKey d ≠ ""))

/-- `owned_by_addr`: the last owned entry of each normalised address. -/
def ownedByAddr (entries : List Entry) : OrderedDict String Entry :=
  ofLast (fun e => normalizeAddr U e.address) (entries.filter (fun e => isOwned e.comment))

/-- `str(e.get("id") or e.get(".id"))`, empty when the entry has neither. -/
def Entry.eid (e : Entry) : String := orElse e.id (orElse e.dotId "")

def desiredNorm (desired : List Decision) : List String :=
  (desiredByAddr desired).keys.map (fun a => normalizeAddr U (some a))

def reconcile (desired : List Decision) (entries : List Entry) : ReconcileDiff where
  toAdd := (desiredByAddr desired).items.filterMap (fun p =>
    if normalizeAddr U (some p.1) ∈ (ownedByAddr U entries).keys then none else some (p.1,encodeComment p.2))
  toRemove := (ownedByAddr U entries).items.filterMap (fun p =>
    if p.1 ∈ desiredNorm U desired then none else if p.2.eid = "" then none else some p.2.eid)
  unchanged := ((desiredByAddr desired).keys.filter (fun a =>
    normalizeAddr U (some a) ∈ (ownedByAddr U entries).keys)).length
  foreignKept := (entries.filter (fun e => !isOwned e.comment)).length

end

/-! ## What the diff contains -/

section
variable {U : CaseMap}

def desiredKeys (desired : List Decision) : List String :=
  firstKeys ((desired.filter (fun d => desiredKey d ≠ "")).map desiredKey)

def ownedAddrs (U : CaseMap) (entries : List Entry) : List String :=
  (entries.filter (fun e => isOwned e.comment)).map (fun e => normalizeAddr U e.address)

/-- An owned entry whose address nothing desires any more. -/
def IsStale (U : CaseMap) (desired : List Decision) (e : Entry) : Prop :=
  isOwned e.comment = true ∧ normalizeAddr U e.address ∉ desiredNorm U desired

instance (desired : List Decision) (e : Entry) : Decidable (IsStale U desired e) := inferInstanceAs (Decidable (_ ∧ _))

@[simp] theorem keys_desiredByAddr (desired : List Decision) : (desiredByAddr desired).keys = desiredKeys desired :=
  keys_ofFirst _ _

theorem mem_keys_ownedByAddr {entries : List Entry} {a : String} :
    a ∈ (ownedByAddr U entries).keys ↔ a ∈ ownedAddrs U entries := by
  rw [ownedByAddr, keys_ofLast, mem_firstKeys, ownedAddrs]

theorem mem_desiredNorm {desired : List Decision} {a : String} :
    a ∈ desiredNorm U desired ↔ ∃ k ∈ desiredKeys desired, normalizeAddr U (some k) = a := by
  rw [desiredNorm, keys_desiredByAddr, List.mem_map]

/-- The addresses to add are the desired values that no owned entry covers, in desired order. -/
theorem map_fst_toAdd (desired : List Decision) (entries : List Entry) :
    (reconcile U desired entries).toAdd.map Prod.fst =
      (desiredKeys desired).filter (fun k => normalizeAddr U (some k) ∉ ownedAddrs U entries) := by
  rw [← keys_desiredByAddr, keys, reconcile]
  simp only [mem_keys_ownedByAddr]
  generalize (desiredByAddr desired).items = items
  induction items with
  | nil => rfl
  | cons p rest ih =>
    by_cases h : normalizeAddr U (some p.1) ∈ ownedAddrs U entries
    · simp [h, ih]
    · simp [h, ih]

theorem isOwned_of_mem_toAdd {desired : List Decision} {entries : List Entry} {p : String × String}
    (h : p ∈ (reconcile U desired entries).toAdd) : isOwned (some p.2) = true := by
  obtain ⟨q,_,hq⟩ := List.mem_filterMap.mp h
  split at hq
  · cases hq
  · cases hq
    exact isOwned_encodeComment q.2

theorem mem_toRemove {desired : List Decision} {entries : List Entry} {h : String}
    (hh : h ∈ (reconcile U desired entries).toRemove) :
    ∃ e ∈ entries, IsStale U desired e ∧ e.eid = h ∧ h ≠ "" := by
  obtain ⟨⟨a,e⟩,hp,hq⟩ := List.mem_filterMap.mp hh
  obtain ⟨he,ha⟩ := lastWith_some (mem_items_ofLast hp)
  obtain ⟨hmem,howned⟩ := List.mem_filter.mp he
  dsimp only at ha hq
  by_cases hd : a ∈ desiredNorm U desired
  · simp [hd] at hq
  · by_cases hid : e.eid = ""
    · simp [hd, hid] at hq
    · simp only [if_neg hd, if_neg hid, Option.some.injEq] at hq
      exact ⟨e,hmem,⟨howned,ha ▸ hd⟩,hq,hq ▸ hid⟩

/-- While a stale entry is left and entries have handles, something is to be removed. -/
theorem toRemove_ne_nil {desired : List Decision} {entries : List Entry} (hid : ∀ e ∈ entries, e.eid ≠ "")
    {e : Entry} (he : e ∈ entries) (hs : IsStale U desired e) : (reconcile U desired entries).toRemove ≠ [] := by
  have hkey : normalizeAddr U e.address ∈ (ownedByAddr U entries).keys :=
    mem_keys_ownedByAddr.mpr (List.mem_map.mpr ⟨e,List.mem_filter.mpr ⟨he,hs.1⟩,rfl⟩)
  obtain ⟨p,hp,hpk⟩ := List.mem_map.mp hkey
  obtain ⟨hmem,_⟩ := lastWith_some (mem_items_ofLast hp)
  have hne : p.2.eid ≠ "" := hid _ (List.mem_filter.mp hmem).1
  have hout : p.2.eid ∈ (reconcile U desired entries).toRemove := by
    refine List.mem_filterMap.mpr ⟨p,hp,?_⟩
    rw [if_neg (hpk ▸ hs.2), if_neg hne]
  exact List.ne_nil_of_mem hout

end
end Protek.Diff
