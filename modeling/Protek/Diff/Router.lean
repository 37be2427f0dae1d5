import Protek.Diff.Reconcile
import Protek.Foundation.IpAddress
import Protek.Foundation.KeyedTable

/-! # A MikroTik behind the diff engine

RouterOS keeps an address-list table for each family, and a handle may occur in
both. `getAddressList` reads the two tables, `apply` is the common code of the two
adapters. A router without IPv6 has no table of that family.
-/
namespace Protek.Diff
open Foundation Foundation.PyText Foundation.IpAddress

structure ListRow where
  handle : String
  list : String
  address : String
  comment : Option String
  deriving DecidableEq, Repr

abbrev AddressList := KeyedTable String ListRow ListRow.handle

structure Router where
  tables : Family → AddressList
  hasV6 : Bool

def Family.path : Family → String
  | .v4 => "/ip/firewall/address-list"
  | .v6 => "/ipv6/firewall/address-list"

def Family.tag : Family → String
  | .v4 => "v4:"
  | .v6 => "v6:"

namespace Router

/-- `get_resource(path)`, none where the router has no such menu. -/
def resource (r : Router) (f : Family) : Option AddressList :=
  if f = .v6 ∧ r.hasV6 = false then none else some (r.tables f)

def put (r : Router) (f : Family) (t : AddressList) : Router := { r with tables := Function.update r.tables f t }

/-- The tables as maps from handles to rows. -/
def row (r : Router) (f : Family) (handle : String) : Option ListRow := (r.resource f).bind (fun t => t.find handle)

end Router

/-! ## Reading -/

/-- A row as the library returns it: the handle stands under `id`, and under `.id` if `dotted`. -/
def libraryEntry (dotted : Bool) (row : ListRow) : Entry where
  dotId := if dotted then some row.handle else none
  id := some row.handle
  list := some row.list
  address := some row.address
  comment := row.comment

/-- The family goes before the handle under `.id`; the one under `id` stays bare. -/
def tagFamily (f : Family) (e : Entry) : Entry :=
  let rawId := orElse e.dotId (orElse e.id (orElse e.numbers ""))
  { e with
    dotId := if rawId = "" then e.dotId else some (f.tag ++ rawId)
    family := some f }

def familyEntries (dotted : ListRow → Bool) (r : Router) (listName : String) (f : Family) : List Entry :=
  match r.resource f with
  | none => []
  | some t => (t.rows.filter (fun row => row.list = listName)).map (fun row => tagFamily f (libraryEntry (dotted row) row))

def getAddressList (dotted : ListRow → Bool) (r : Router) (listName : String) : List Entry :=
  familyEntries dotted r listName .v4 ++ familyEntries dotted r listName .v6

/-! ## Writing -/

structure PushEntry where
  ip : String
  action : String
  success : Bool
  error : Option String := none
  deriving DecidableEq, Repr

structure ApplyResult where
  appliedAdd : ℕ := 0
  appliedRemove : ℕ := 0
  errors : ℕ := 0
  pushLog : List PushEntry := []
  deriving DecidableEq, Repr

/-- How the router answers: to an add with the new row's handle and the address as stored
or with an error text, to the removal of an absent handle with an error text. -/
structure RouterOs where
  add : Family → AddressList → String → String → String → Except String (String × String)
  removeAbsent : Family → String → String

def isIpv6 (addr : String) : Bool := (ipNetwork (strip addr)).any (fun n => n.version = .v6)

def addFamily (addr : String) : Family := if isIpv6 addr then .v6 else .v4

def splitId (prefixedId : String) : String × String :=
  if startsWith prefixedId "v6:" then (Family.v6.path,dropStart prefixedId 3)
  else if startsWith prefixedId "v4:" then (Family.v4.path,dropStart prefixedId 3)
  else (Family.v4.path,prefixedId)

def resourceOf (path : String) : Family := if path = Family.v6.path then .v6 else .v4

/-- The row that a removal id means. -/
def removalTarget (mtId : String) : Family × String := (resourceOf (splitId mtId).1,(splitId mtId).2)

def errorText (e : String) : String := String.ofList (e.toList.take 300)

def ApplyResult.fail (res : ApplyResult) (ip action error : String) : ApplyResult :=
  { res with
    errors := res.errors + 1
    pushLog := res.pushLog ++ [⟨ip,action,false,some error⟩] }

def ApplyResult.added (res : ApplyResult) (ip : String) (error : Option String) : ApplyResult :=
  { res with
    appliedAdd := res.appliedAdd + 1
    pushLog := res.pushLog ++ [⟨ip,"add",true,error⟩] }

def ApplyResult.removed (res : ApplyResult) (mtId : String) (error : Option String) : ApplyResult :=
  { res with
    appliedRemove := res.appliedRemove + 1
    pushLog := res.pushLog ++ [⟨mtId,"remove",true,error⟩] }

section
variable (U : CaseMap) (R : RouterOs) (listName : String)

def applyAdd (st : Router × ApplyResult) (p : String × String) : Router × ApplyResult :=
  let f := addFamily p.1
  match st.1.resource f with
  | none => (st.1,st.2.fail p.1 "add" "ipv6 address-list resource unavailable")
  | some t =>
    match R.add f t listName p.1 p.2 with
    | .ok (handle,address) =>
      (st.1.put f (t.upsert ⟨handle,listName,address,some p.2⟩ id (fun _ => rfl)),st.2.added p.1 none)
    | .error e =>
      let msg := U.lower e
      if contains msg "already have such entry" || contains msg "duplicate" || contains msg "already exists" then
        (st.1,st.2.added p.1 (some "idempotent"))
      else (st.1,st.2.fail p.1 "add" (errorText e))

def applyRemove (st : Router × ApplyResult) (mtId : String) : Router × ApplyResult :=
  let f := (removalTarget mtId).1
  let realId := (removalTarget mtId).2
  match st.1.resource f with
  | none => (st.1,st.2.fail mtId "remove" "ipv6 address-list resource unavailable")
  | some t =>
    if (t.find realId).isSome then
      (st.1.put f (t.remove (fun row => row.handle = realId)),st.2.removed mtId none)
    else
      let e := R.removeAbsent f realId
      let msg := U.lower e
      if contains msg "no such item" || contains msg "not found" then (st.1,st.2.removed mtId (some "idempotent"))
      else (st.1,st.2.fail mtId "remove" (errorText e))

def applyAdds (r : Router) (toAdd : List (String × String)) : Router × ApplyResult :=
  toAdd.foldl (applyAdd U R listName) (r,{})

/-- `apply` of both adapters. -/
def apply (r : Router) (toAdd : List (String × String)) (toRemoveIds : List String) : Router × ApplyResult :=
  toRemoveIds.foldl (applyRemove U R) (applyAdds U R listName r toAdd)

/-- One cycle of a target: snapshot, diff, and the first `cap` of each kind. -/
def push (dotted : ListRow → Bool) (r : Router) (desired : List Decision) (cap : ℕ) : Router × ApplyResult :=
  let diff := reconcile U desired (getAddressList dotted r listName)
  apply U R listName r (diff.toAdd.take cap) (diff.toRemove.take cap)

end

/-- `address_list or "crowdsec"` of the adapter that the database configures. -/
def MikroTikDBAdapter.listName (addressList : String) : String := orElse (some addressList) "crowdsec"

/-- `address_list_name()` of the adapter that `.env` configures, less what follows a `#`. -/
def MikroTikLegacyAdapter.listName (env : Option String) : String :=
  orElse (some (strip (String.ofList ((orElse env "").toList.takeWhile (fun c => c ≠ '#'))))) "crowdsec"

def MikroTikDBAdapter.push (U : CaseMap) (R : RouterOs) (addressList : String) :=
  Diff.push U R (MikroTikDBAdapter.listName addressList)

def MikroTikLegacyAdapter.push (U : CaseMap) (R : RouterOs) (env : Option String) :=
  Diff.push U R (MikroTikLegacyAdapter.listName env)

/-! ## What one call changes -/

section
variable {U : CaseMap} {R : RouterOs} {listName : String} {st : Router × ApplyResult}

theorem row_put {r : Router} {f g : Family} {t t' : AddressList} (h : r.resource f = some t) (k : String) :
    (r.put f t').row g k = if g = f then t'.find k else r.row g k := by
  unfold Router.row Router.resource Router.put at *
  by_cases hg : g = f
  · subst hg
    by_cases hv : g = .v6 ∧ r.hasV6 = false
    · simp [hv] at h
    · simp [hv]
  · simp [hg]

theorem row_of_resource {r : Router} {f : Family} {t : AddressList} (h : r.resource f = some t) (k : String) :
    r.row f k = t.find k := by
  rw [Router.row, h]
  rfl

/-- An add keeps every row. -/
theorem row_applyAdd {f : Family} {k : String} {row : ListRow} {p : String × String} (hrow : st.1.row f k = some row) :
    (applyAdd U R listName st p).1.row f k = some row := by
  unfold applyAdd
  dsimp only
  split
  · exact hrow
  · next t ht =>
    split
    · next handle address _ =>
      rw [row_put ht]
      split
      · next hf =>
        subst hf
        rw [row_of_resource ht] at hrow
        rw [KeyedTable.find_upsert, hrow]
        split <;> rfl
      · exact hrow
    · split
      · exact hrow
      · exact hrow

theorem row_applyAdds {r : Router} {toAdd : List (String × String)} {f : Family} {k : String} {row : ListRow}
    (hrow : r.row f k = some row) : (applyAdds U R listName r toAdd).1.row f k = some row := by
  unfold applyAdds
  have hinit : ((r,{}) : Router × ApplyResult).1.row f k = some row := hrow
  exact List.foldlRecOn (motive := fun st : Router × ApplyResult => st.1.row f k = some row) toAdd _ hinit
    (fun st hst p _ => row_applyAdd hst)

end
end Protek.Diff
