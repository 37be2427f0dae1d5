import Protek.Diff.Addresses
import Protek.Diff.RouterSafety

/-! # Two transports to one router

The adapter of the binary API reads and writes the address lists of both families.
The one of the REST API knows the IPv4 list alone. Both serve the same diff engine,
which is to have no need to know which of them it talks to.
-/
namespace Protek.Diff
open Foundation Foundation.OrderedDict Foundation.PyText Foundation.IpAddress

/-! ## Reading -/

def listRows (r : Router) (listName : String) (f : Family) : List ListRow :=
  match r.resource f with
  | none => []
  | some t => t.rows.filter (fun row => row.list = listName)

/-- A row as both APIs return it, with the handle under `.id`. -/
def apiEntry (row : ListRow) : Entry where
  dotId := some row.handle
  list := some row.list
  address := some row.address
  comment := row.comment

/-- `get_address_list` for any form of the raw entries. -/
def addressListOf (entry : ListRow → Entry) (r : Router) (listName : String) : List Entry :=
  (listRows r listName .v4).map (fun row => tagFamily .v4 (entry row)) ++
    (listRows r listName .v6).map (fun row => tagFamily .v6 (entry row))

theorem getAddressList_eq (dotted : ListRow → Bool) (r : Router) (listName : String) :
    getAddressList dotted r listName = addressListOf (fun row => libraryEntry (dotted row) row) r listName := by
  have hfamily : ∀ f, familyEntries dotted r listName f =
      (listRows r listName f).map (fun row => tagFamily f (libraryEntry (dotted row) row)) := by
    intro f
    unfold familyEntries listRows
    cases r.resource f with
    | none => rfl
    | some t => rfl
  rw [getAddressList, hfamily, hfamily, addressListOf]

/-- The JSON body of a reply, as far as the adapter reads it. -/
structure Body where
  detail : Option String := none
  message : Option String := none
  deriving DecidableEq, Repr

/-- `body` is none where the content is no JSON. -/
structure Response where
  status : ℕ
  body : Option Body
  text : String
  deriving DecidableEq, Repr

/-- How the router's web server answers: to a GET with the rows, to a PUT with what the
table said, to a DELETE of a handle that is there or not. An exception is one of `requests`,
a GET without value is a body that is no list. -/
structure RestServer where
  get : List ListRow → Except String (Option (List Entry))
  put : Except String String → Except String Response
  delete : Bool → Except String Response

def Body.said (b : Body) : String := orElse b.detail (orElse b.message "")

def duplicateText (U : CaseMap) (e : String) : Bool :=
  let msg := U.lower e
  contains msg "already have such entry" || contains msg "duplicate" || contains msg "already exists"

namespace MikroTikRESTAdapter

def snapshotEntry (e : Entry) : Entry where
  dotId := some (e.dotId.getD "")
  address := some (e.address.getD "")
  comment := some (e.comment.getD "")
  list := some (e.list.getD "")

def snapshot (W : RestServer) (r : Router) (listName : String) : List Entry :=
  match W.get (listRows r listName .v4) with
  | .ok (some entries) => entries.map snapshotEntry
  | .ok none => []
  | .error _ => []

def isDuplicate (U : CaseMap) (resp : Response) : Bool :=
  match resp.body with
  | some b => duplicateText U b.said
  | none => false

def head (s : String) : String := String.ofList (s.toList.take 200)

def errorText (resp : Response) : String :=
  match resp.body with
  | some b => orElse b.detail (orElse b.message (head resp.text))
  | none => head resp.text

/-! ## Writing -/

theorem handle_id (row : ListRow) : (id row).handle = row.handle := rfl

section
variable (U : CaseMap) (R : RouterOs) (W : RestServer) (listName : String)

def applyAdd (st : Router × ApplyResult) (p : String × String) : Router × ApplyResult :=
  let t := st.1.tables .v4
  let answer := R.add .v4 t listName p.1 p.2
  let r := match answer with
    | .ok (handle,address) => st.1.put .v4 (t.upsert ⟨handle,listName,address,some p.2⟩ id handle_id)
    | .error _ => st.1
  match W.put (answer.map Prod.fst) with
  | .error e => (r,st.2.fail p.1 "add" (head e))
  | .ok resp =>
    if resp.status = 200 ∨ resp.status = 201 then (r,st.2.added p.1 none)
    else if resp.status = 400 ∧ isDuplicate U resp = true then (r,st.2.added p.1 (some "idempotent"))
    else (r,st.2.fail p.1 "add" (errorText resp))

def applyRemove (st : Router × ApplyResult) (rid : String) : Router × ApplyResult :=
  let t := st.1.tables .v4
  let r := st.1.put .v4 (t.remove (fun row => row.handle = rid))
  match W.delete (t.find rid).isSome with
  | .error e => (r,st.2.fail rid "remove" (head e))
  | .ok resp =>
    if resp.status = 200 ∨ resp.status = 204 then (r,st.2.removed rid none)
    else if resp.status = 404 then (r,st.2.removed rid (some "idempotent"))
    else (r,st.2.fail rid "remove" (errorText resp))

def applyAdds (r : Router) (toAdd : List (String × String)) : Router × ApplyResult :=
  toAdd.foldl (applyAdd U R W listName) (r,{})

def apply (r : Router) (toAdd : List (String × String)) (toRemoveIds : List String) : Router × ApplyResult :=
  toRemoveIds.foldl (applyRemove W) (applyAdds U R W listName r toAdd)

def cycle (r : Router) (desired : List Decision) (cap : ℕ) : Router × ApplyResult :=
  let diff := reconcile U desired (snapshot W r listName)
  apply U R W listName r (diff.toAdd.take cap) (diff.toRemove.take cap)

end
end MikroTikRESTAdapter

/-- A cycle over the binary API whose entries carry the handle under `.id` alone. -/
def MikroTikDBAdapter.cycle (U : CaseMap) (R : RouterOs) (listName : String) (r : Router) (desired : List Decision)
    (cap : ℕ) : Router × ApplyResult :=
  let diff := reconcile U desired (addressListOf apiEntry r listName)
  Diff.apply U R listName r (diff.toAdd.take cap) (diff.toRemove.take cap)

/-! ## What the router is relied on for -/

def Family.version : Family → Version
  | .v4 => .v4
  | .v6 => .v6

/-- The row is in the table now, or was there before. -/
def taken (U : CaseMap) : Except String (String × String) → Bool
  | .ok _ => true
  | .error e => duplicateText U e

/-- RouterOS accepts an address exactly in the table of its family. -/
def AcceptsOwnFamily (U : CaseMap) (R : RouterOs) : Prop :=
  ∀ f t list a comment n, Spells a n → (taken U (R.add f t list a comment) = true ↔ n.version = f.version)

/-- The REST API as documented: success is 200, 201 or 204, a refusal 400 with the router's error text. -/
structure RestServer.Documented (W : RestServer) : Prop where
  get : ∀ rows, W.get rows = .ok (some (rows.map apiEntry))
  put_ok : ∀ handle, ∃ resp, W.put (.ok handle) = .ok resp ∧ (resp.status = 200 ∨ resp.status = 201)
  put_error : ∀ e, ∃ resp b, W.put (.error e) = .ok resp ∧ resp.status = 400 ∧ resp.body = some b ∧ b.said = e
  delete : ∃ resp, W.delete true = .ok resp ∧ (resp.status = 200 ∨ resp.status = 204)

/-- Rows have handles, and Protek's own rows hold addresses of their table's family. -/
structure WellKept (r : Router) (listName : String) : Prop where
  handle : ∀ f k row, r.row f k = some row → k ≠ ""
  own : ∀ f k row, r.row f k = some row → row.list = listName → isOwned row.comment = true →
    ∃ n, Spells row.address n ∧ n.version = f.version

/-! ## The claim and its condition -/

def HasRow (r : Router) (f : Family) (list address : String) (comment : Option String) : Prop :=
  ∃ k row, r.row f k = some row ∧ row.list = list ∧ row.address = address ∧ row.comment = comment

def ApplyResult.tally (res : ApplyResult) : ℕ × ℕ × ℕ := (res.appliedAdd,res.appliedRemove,res.errors)

/-- The transports leave the same rows and report the same numbers. -/
def Interchangeable (s t : Router × ApplyResult) : Prop :=
  (∀ f list address comment, HasRow s.1 f list address comment ↔ HasRow t.1 f list address comment) ∧
  s.2.tally = t.2.tally

def ownRows (r : Router) (listName : String) (f : Family) : List ListRow :=
  (listRows r listName f).filter (fun row => isOwned row.comment)

def rowNorm (U : CaseMap) (row : ListRow) : String := normalizeAddr U (some row.address)

/-- The rows to remove from one table. -/
def staleRows (U : CaseMap) (listName : String) (r : Router) (desired : List Decision) (f : Family) : List ListRow :=
  (lastByKey (rowNorm U) (ownRows r listName f)).filter (fun row => rowNorm U row ∉ desiredNorm U desired)

/-- The desired addresses that no own IPv4 row covers, every IPv6 address among them. -/
def missingFromV4 (U : CaseMap) (listName : String) (r : Router) (desired : List Decision) : List String :=
  (desiredKeys desired).filter (fun k => normalizeAddr U (some k) ∉ (ownRows r listName .v4).map (rowNorm U))

/-- The router has no IPv6 list, or IPv4 work fills both batches before IPv6 has its turn. -/
def V4Only (U : CaseMap) (listName : String) (r : Router) (desired : List Decision) (cap : ℕ) : Prop :=
  r.hasV6 = false ∨ ((∀ k ∈ (missingFromV4 U listName r desired).take cap, isIpv6 k = false) ∧
    (staleRows U listName r desired .v6 = [] ∨ cap ≤ (staleRows U listName r desired .v4).length))

/-! ## The batches -/

section
variable {U : CaseMap} {listName : String} {r : Router} {desired : List Decision} {cap : ℕ}

theorem mem_listRows {f : Family} {row : ListRow} :
    row ∈ listRows r listName f ↔ r.row f row.handle = some row ∧ row.list = listName := by
  unfold listRows
  cases hres : r.resource f with
  | none => simp [Router.row, hres]
  | some t =>
    dsimp only
    rw [row_of_resource hres, KeyedTable.find_eq_some, List.mem_filter, decide_eq_true_iff]
    simp only [and_true]

/-- Own rows of the two families have no address in common. -/
theorem rowNorm_ne (hr : WellKept r listName) {a b : ListRow} (ha : a ∈ ownRows r listName .v4)
    (hb : b ∈ ownRows r listName .v6) : rowNorm U a ≠ rowNorm U b := by
  intro he
  obtain ⟨ha,haown⟩ := List.mem_filter.mp ha
  obtain ⟨hb,hbown⟩ := List.mem_filter.mp hb
  obtain ⟨harow,halist⟩ := mem_listRows.mp ha
  obtain ⟨hbrow,hblist⟩ := mem_listRows.mp hb
  obtain ⟨n,hn,hnv⟩ := hr.own _ _ _ harow halist haown
  obtain ⟨m,hm,hmv⟩ := hr.own _ _ _ hbrow hblist hbown
  have hversion := version_eq_of_normalizeAddr hn hm he
  rw [hnv, hmv] at hversion
  cases hversion

theorem isIpv6_of_spells {k : String} {n : Network} (h : Spells k n) : isIpv6 k = decide (n.version = .v6) := by
  rw [isIpv6, strip_of_plain h.plain, h.network]
  rfl

theorem toAdd_eq (entries : List Entry) : (reconcile U desired entries).toAdd =
    ((desiredByAddr desired).items.filter (fun p => normalizeAddr U (some p.1) ∉ ownedAddrs U entries)).map
      (fun p => (p.1,encodeComment p.2)) := by
  rw [reconcile]
  simp only [mem_keys_ownedByAddr]
  rw [← List.filterMap_eq_map, List.filterMap_filter]
  refine List.filterMap_congr (fun p _ => ?_)
  by_cases h : normalizeAddr U (some p.1) ∈ ownedAddrs U entries
  · simp [h]
  · simp [h]

theorem owned_map {g : ListRow → Entry} (hg : ∀ row, isOwned (g row).comment = isOwned row.comment) (f : Family) :
    ((listRows r listName f).map g).filter (fun e => isOwned e.comment) = (ownRows r listName f).map g := by
  rw [List.filter_map, ownRows]
  congr 2
  funext row
  exact hg row

/-- The last own row of each address, whatever form the entries have. -/
theorem lastByKey_ownRows {g : ListRow → Entry} (haddress : ∀ row, (g row).address = some row.address) (f : Family) :
    lastByKey (fun e : Entry => normalizeAddr U e.address) ((ownRows r listName f).map g) =
      (lastByKey (rowNorm U) (ownRows r listName f)).map g := by
  rw [lastByKey_map]
  simp only [haddress]
  rfl

theorem filter_stale {g : ListRow → Entry} (haddress : ∀ row, (g row).address = some row.address) {f : Family}
    (hid : ∀ row ∈ ownRows r listName f, (g row).eid ≠ "") :
    ((lastByKey (rowNorm U) (ownRows r listName f)).map g).filter
        (fun e => normalizeAddr U e.address ∉ desiredNorm U desired ∧ e.eid ≠ "") =
      (staleRows U listName r desired f).map g := by
  rw [List.filter_map, staleRows]
  congr 1
  refine List.filter_congr (fun row hrow => ?_)
  have hne := hid row (mem_of_mem_lastByKey hrow)
  refine decide_eq_decide.mpr ?_
  rw [haddress, rowNorm]
  exact and_iff_left hne

theorem handle_ne (hr : WellKept r listName) {f : Family} {row : ListRow} (h : row ∈ ownRows r listName f) :
    row.handle ≠ "" := hr.handle _ _ _ (mem_listRows.mp (List.mem_filter.mp h).1).1

theorem eid_apiEntry (f : Family) {row : ListRow} (h : row.handle ≠ "") :
    (tagFamily f (apiEntry row)).eid = f.tag ++ row.handle := by
  have hne : f.tag ++ row.handle ≠ "" := by
    cases f <;> simp [Family.tag]
  simp [Entry.eid, tagFamily, apiEntry, orElse, h, hne]

theorem eid_snapshotEntry (row : ListRow) : (MikroTikRESTAdapter.snapshotEntry (apiEntry row)).eid = row.handle := by
  by_cases h : row.handle = "" <;> simp [Entry.eid, MikroTikRESTAdapter.snapshotEntry, apiEntry, orElse, h]

theorem snapshot_eq {W : RestServer} (hW : W.Documented) : MikroTikRESTAdapter.snapshot W r listName =
    (listRows r listName .v4).map (fun row => MikroTikRESTAdapter.snapshotEntry (apiEntry row)) := by
  rw [MikroTikRESTAdapter.snapshot, hW.get]
  dsimp only
  rw [List.map_map]
  rfl

theorem isOwned_snapshotEntry (row : ListRow) :
    isOwned (MikroTikRESTAdapter.snapshotEntry (apiEntry row)).comment = isOwned row.comment := by
  change isOwned (some (row.comment.getD "")) = isOwned row.comment
  cases row.comment with
  | none => decide
  | some c => rfl

/-- Where the rows to remove stand. -/
def staleItems (U : CaseMap) (listName : String) (r : Router) (desired : List Decision) (f : Family) :
    List (Family × String) := (staleRows U listName r desired f).map (fun row => (f,row.handle))

theorem db_toRemove (hr : WellKept r listName) :
    (reconcile U desired (addressListOf apiEntry r listName)).toRemove.take cap =
      ((staleItems U listName r desired .v4 ++ staleItems U listName r desired .v6).take cap).map
        (fun x => x.1.tag ++ x.2) := by
  have hid : ∀ f, ∀ row ∈ ownRows r listName f, (tagFamily f (apiEntry row)).eid ≠ "" := by
    intro f row hrow
    rw [eid_apiEntry f (handle_ne hr hrow)]
    cases f <;> simp [Family.tag]
  have hdisj : ∀ a ∈ (ownRows r listName .v4).map (fun row => tagFamily .v4 (apiEntry row)),
      ∀ b ∈ (ownRows r listName .v6).map (fun row => tagFamily .v6 (apiEntry row)),
      normalizeAddr U a.address ≠ normalizeAddr U b.address := by
    intro a ha b hb
    obtain ⟨x,hx,rfl⟩ := List.mem_map.mp ha
    obtain ⟨y,hy,rfl⟩ := List.mem_map.mp hb
    exact rowNorm_ne hr hx hy
  have htag : ∀ f, (staleRows U listName r desired f).map (fun row => (tagFamily f (apiEntry row)).eid) =
      (staleItems U listName r desired f).map (fun x => x.1.tag ++ x.2) := by
    intro f
    rw [staleItems, List.map_map]
    refine List.map_congr_left (fun row hrow => ?_)
    exact eid_apiEntry f (handle_ne hr (mem_of_mem_lastByKey (List.mem_filter.mp hrow).1))
  rw [take_toRemove, staleBatch, addressListOf, List.filter_append,
    owned_map (g := fun row => tagFamily .v4 (apiEntry row)) (fun _ => rfl),
    owned_map (g := fun row => tagFamily .v6 (apiEntry row)) (fun _ => rfl),
    lastByKey_append hdisj, List.filter_append]
  rw [lastByKey_ownRows (g := fun row => tagFamily .v4 (apiEntry row)) (fun _ => rfl),
    lastByKey_ownRows (g := fun row => tagFamily .v6 (apiEntry row)) (fun _ => rfl),
    filter_stale (g := fun row => tagFamily .v4 (apiEntry row)) (fun _ => rfl) (hid .v4),
    filter_stale (g := fun row => tagFamily .v6 (apiEntry row)) (fun _ => rfl) (hid .v6)]
  rw [List.map_take, List.map_take, List.map_append, List.map_append, List.map_map, List.map_map, ← htag, ← htag]
  rfl

theorem rest_toRemove {W : RestServer} (hW : W.Documented) (hr : WellKept r listName) :
    (reconcile U desired (MikroTikRESTAdapter.snapshot W r listName)).toRemove.take cap =
      ((staleItems U listName r desired .v4).take cap).map Prod.snd := by
  have hid : ∀ row ∈ ownRows r listName .v4, (MikroTikRESTAdapter.snapshotEntry (apiEntry row)).eid ≠ "" := by
    intro row hrow
    rw [eid_snapshotEntry]
    exact handle_ne hr hrow
  rw [take_toRemove, staleBatch, snapshot_eq hW, owned_map isOwned_snapshotEntry,
    lastByKey_ownRows (g := fun row => MikroTikRESTAdapter.snapshotEntry (apiEntry row)) (fun _ => rfl),
    filter_stale (g := fun row => MikroTikRESTAdapter.snapshotEntry (apiEntry row)) (fun _ => rfl) hid]
  rw [staleItems, List.map_take, List.map_take, List.map_map, List.map_map]
  simp only [Function.comp_def, eid_snapshotEntry]

end

/-! ## What one call changes -/

section
variable {U : CaseMap} {R : RouterOs} {W : RestServer} {listName : String}

/-- One state of the router and one tally. -/
structure SameOutcome (st st' : Router × ApplyResult) : Prop where
  router : st.1 = st'.1
  tally : st.2.tally = st'.2.tally

theorem addFamily_of_spells {k : String} {n : Network} (h : Spells k n) : (addFamily k).version = n.version := by
  unfold addFamily
  rw [isIpv6_of_spells h]
  cases n.version <;> rfl

theorem eq_v6_of_ne {f : Family} (h : f ≠ .v4) : f = .v6 := by
  cases f with
  | v4 => exact absurd rfl h
  | v6 => rfl

/-- The tables after the answer to an add. -/
def stored (listName : String) (r : Router) (f : Family) (comment : String) : Except String (String × String) → Router
  | .ok (handle,address) => r.put f ((r.tables f).upsert ⟨handle,listName,address,some comment⟩ id MikroTikRESTAdapter.handle_id)
  | .error _ => r

theorem hasV6_stored {r : Router} {f : Family} {comment : String} (answer : Except String (String × String)) :
    (stored listName r f comment answer).hasV6 = r.hasV6 := by
  cases answer <;> rfl

theorem resource_eq {r : Router} {f : Family} (h : f = .v4 ∨ r.hasV6 = true) : r.resource f = some (r.tables f) := by
  refine if_neg ?_
  rintro ⟨rfl,h6⟩
  rcases h with h | h
  · cases h
  · rw [h6] at h
    cases h

variable (U R listName) in
theorem applyAdd_present (st : Router × ApplyResult) {p : String × String}
    (h : addFamily p.1 = .v4 ∨ st.1.hasV6 = true) :
    let answer := R.add (addFamily p.1) (st.1.tables (addFamily p.1)) listName p.1 p.2
    (applyAdd U R listName st p).1 = stored listName st.1 (addFamily p.1) p.2 answer ∧
    (applyAdd U R listName st p).2.tally =
      if taken U answer = true then (st.2.appliedAdd + 1,st.2.appliedRemove,st.2.errors)
      else (st.2.appliedAdd,st.2.appliedRemove,st.2.errors + 1) := by
  unfold applyAdd
  dsimp only
  rw [resource_eq h]
  dsimp only
  cases hadd : R.add (addFamily p.1) (st.1.tables (addFamily p.1)) listName p.1 p.2 with
  | ok row => exact ⟨rfl,rfl⟩
  | error e =>
    by_cases hdup : duplicateText U e = true
    · have htaken : taken U (.error e) = true := hdup
      rw [if_pos htaken]
      unfold duplicateText at hdup
      dsimp only at hdup ⊢
      rw [if_pos hdup]
      exact ⟨rfl,rfl⟩
    · have htaken : ¬ taken U (.error e) = true := hdup
      rw [if_neg htaken]
      unfold duplicateText at hdup
      dsimp only at hdup ⊢
      rw [if_neg hdup]
      exact ⟨rfl,rfl⟩

variable (U R listName) in
theorem applyAdd_absent (st : Router × ApplyResult) {p : String × String} (hp : addFamily p.1 = .v6)
    (h : st.1.hasV6 = false) : (applyAdd U R listName st p).1 = st.1 ∧
    (applyAdd U R listName st p).2.tally = (st.2.appliedAdd,st.2.appliedRemove,st.2.errors + 1) := by
  have hres : st.1.resource .v6 = none := if_pos ⟨rfl,h⟩
  unfold applyAdd
  dsimp only
  rw [hp, hres]
  exact ⟨rfl,rfl⟩

variable (U R listName) in
theorem rest_applyAdd (hW : W.Documented) (st : Router × ApplyResult) (p : String × String) :
    let answer := R.add .v4 (st.1.tables .v4) listName p.1 p.2
    (MikroTikRESTAdapter.applyAdd U R W listName st p).1 = stored listName st.1 .v4 p.2 answer ∧
    (MikroTikRESTAdapter.applyAdd U R W listName st p).2.tally =
      if taken U answer = true then (st.2.appliedAdd + 1,st.2.appliedRemove,st.2.errors)
      else (st.2.appliedAdd,st.2.appliedRemove,st.2.errors + 1) := by
  unfold MikroTikRESTAdapter.applyAdd
  dsimp only
  cases hadd : R.add .v4 (st.1.tables .v4) listName p.1 p.2 with
  | ok row =>
    obtain ⟨resp,hresp,hstatus⟩ := hW.put_ok row.1
    have hput : W.put ((Except.ok row : Except String (String × String)).map Prod.fst) = .ok resp := hresp
    rw [hput]
    dsimp only
    rw [if_pos hstatus]
    exact ⟨rfl,rfl⟩
  | error e =>
    obtain ⟨resp,b,hresp,hstatus,hbody,hsaid⟩ := hW.put_error e
    have hput : W.put ((Except.error e : Except String (String × String)).map Prod.fst) = .ok resp := hresp
    have hdup : MikroTikRESTAdapter.isDuplicate U resp = taken U (.error e) := by
      rw [MikroTikRESTAdapter.isDuplicate, hbody]
      dsimp only
      rw [hsaid]
      rfl
    have hrefused : ¬ (resp.status = 200 ∨ resp.status = 201) := by omega
    rw [hput]
    dsimp only
    rw [if_neg hrefused, hdup]
    by_cases ht : taken U (.error e) = true
    · rw [if_pos ⟨hstatus,ht⟩, if_pos ht]
      exact ⟨rfl,rfl⟩
    · rw [if_neg (fun h => ht h.2), if_neg ht]
      exact ⟨rfl,rfl⟩

/-! ## Adds -/

/-- An IPv4 address, or any address where there is no IPv6 list, fares alike over both transports. -/
theorem SameOutcome.applyAdd (hW : W.Documented) (hR : AcceptsOwnFamily U R) {st st' : Router × ApplyResult}
    (h : SameOutcome st st') {p : String × String} {n : Network} (hp : Spells p.1 n)
    (hv4 : n.version = .v4 ∨ st.1.hasV6 = false) :
    SameOutcome (Diff.applyAdd U R listName st p) (MikroTikRESTAdapter.applyAdd U R W listName st' p) := by
  obtain ⟨s,res⟩ := st
  obtain ⟨s',res'⟩ := st'
  obtain ⟨rfl,htally⟩ := h
  obtain ⟨hadded,hrest⟩ := Prod.mk.inj htally
  obtain ⟨hremoved,herrors⟩ := Prod.mk.inj hrest
  dsimp only at hadded hremoved herrors hv4
  have hrouter := (rest_applyAdd U R listName hW (s,res') p).1
  have hcount := (rest_applyAdd U R listName hW (s,res') p).2
  dsimp only at hrouter hcount
  have hfamily := addFamily_of_spells hp
  by_cases hf : addFamily p.1 = .v4
  · obtain ⟨hdb,hdbcount⟩ := applyAdd_present U R listName (s,res) (Or.inl hf)
    rw [hf] at hdb hdbcount
    refine ⟨hdb.trans hrouter.symm,?_⟩
    rw [hdbcount, hcount, hadded, hremoved, herrors]
  · have h6 := eq_v6_of_ne hf
    rw [h6] at hfamily
    have hno : s.hasV6 = false := by
      refine hv4.resolve_left (fun hv => ?_)
      rw [hv] at hfamily
      cases hfamily
    obtain ⟨hdb,hdbcount⟩ := applyAdd_absent U R listName (s,res) h6 hno
    have htaken : ¬ taken U (R.add .v4 (s.tables .v4) listName p.1 p.2) = true := by
      rw [hR .v4 _ _ _ _ n hp, ← hfamily]
      decide
    rw [if_neg htaken] at hcount
    have hsame : stored listName s .v4 p.2 (R.add .v4 (s.tables .v4) listName p.1 p.2) = s := by
      cases hadd : R.add .v4 (s.tables .v4) listName p.1 p.2 with
      | ok row =>
        rw [hadd] at htaken
        exact absurd rfl htaken
      | error e => rfl
    refine ⟨hdb.trans (hrouter.trans hsame).symm,?_⟩
    rw [hdbcount, hcount, hadded, hremoved, herrors]

theorem hasV6_applyAdd (st : Router × ApplyResult) (p : String × String) :
    (applyAdd U R listName st p).1.hasV6 = st.1.hasV6 := by
  by_cases h : addFamily p.1 = .v4 ∨ st.1.hasV6 = true
  · rw [(applyAdd_present U R listName st h).1, hasV6_stored]
  · rw [not_or, Bool.not_eq_true] at h
    rw [(applyAdd_absent U R listName st (eq_v6_of_ne h.1) h.2).1]

variable (listName) in
theorem same_applyAdds (hW : W.Documented) (hR : AcceptsOwnFamily U R) {r : Router} {toAdd : List (String × String)}
    (hspells : ∀ p ∈ toAdd, ∃ n, Spells p.1 n ∧ (n.version = .v4 ∨ r.hasV6 = false)) :
    SameOutcome (applyAdds U R listName r toAdd) (MikroTikRESTAdapter.applyAdds U R W listName r toAdd) := by
  have hfold := List.foldl_rel (r := fun st st' : Router × ApplyResult => SameOutcome st st' ∧ st.1.hasV6 = r.hasV6)
    (l := toAdd) (f := applyAdd U R listName) (g := MikroTikRESTAdapter.applyAdd U R W listName)
    (a := (r,{})) (b := (r,{})) ⟨⟨rfl,rfl⟩,rfl⟩ (by
      rintro p hp st st' ⟨hsame,h6⟩
      obtain ⟨n,hn,hv4⟩ := hspells p hp
      exact ⟨hsame.applyAdd hW hR hn (hv4.imp_right h6.trans),(hasV6_applyAdd st p).trans h6⟩)
  exact hfold.1

variable (listName) in
/-- With both lists there, the binary API adds every address. -/
theorem tally_applyAdds (hR : AcceptsOwnFamily U R) {r : Router} (h6 : r.hasV6 = true) {toAdd : List (String × String)}
    (hspells : ∀ p ∈ toAdd, ∃ n, Spells p.1 n) : (applyAdds U R listName r toAdd).2.tally = (toAdd.length,0,0) := by
  have hfold : ∀ st : Router × ApplyResult, st.1.hasV6 = true →
      (toAdd.foldl (applyAdd U R listName) st).2.tally = (st.2.appliedAdd + toAdd.length,st.2.appliedRemove,st.2.errors) := by
    induction toAdd with
    | nil => exact fun _ _ => rfl
    | cons p rest ih =>
      intro st hst
      obtain ⟨n,hn⟩ := hspells p List.mem_cons_self
      have hstep := (applyAdd_present U R listName st (p := p) (Or.inr hst)).2
      rw [if_pos ((hR _ _ _ _ _ n hn).mpr (addFamily_of_spells hn).symm)] at hstep
      obtain ⟨hadded,hrest⟩ := Prod.mk.inj hstep
      obtain ⟨hremoved,herrors⟩ := Prod.mk.inj hrest
      rw [List.foldl_cons, ih (fun q hq => hspells q (List.mem_cons_of_mem _ hq)) _ ((hasV6_applyAdd st p).trans hst),
        hadded, hremoved, herrors, List.length_cons, Nat.add_assoc, Nat.add_comm 1]
  have h := hfold (r,{}) h6
  rw [applyAdds, h, Nat.zero_add]

variable (listName) in
/-- The REST API refuses every IPv6 address. -/
theorem tally_rest_applyAdds (r : Router) (hW : W.Documented) (hR : AcceptsOwnFamily U R) {toAdd : List (String × String)}
    (hspells : ∀ p ∈ toAdd, ∃ n, Spells p.1 n) : (MikroTikRESTAdapter.applyAdds U R W listName r toAdd).2.tally =
      (toAdd.countP (fun p => !isIpv6 p.1),0,toAdd.countP (fun p => isIpv6 p.1)) := by
  have hfold : ∀ st : Router × ApplyResult, (toAdd.foldl (MikroTikRESTAdapter.applyAdd U R W listName) st).2.tally =
      (st.2.appliedAdd + toAdd.countP (fun p => !isIpv6 p.1),st.2.appliedRemove,
        st.2.errors + toAdd.countP (fun p => isIpv6 p.1)) := by
    induction toAdd with
    | nil => exact fun _ => rfl
    | cons p rest ih =>
      intro st
      obtain ⟨n,hn⟩ := hspells p List.mem_cons_self
      have hstep := (rest_applyAdd U R listName hW st p).2
      have hv6 := isIpv6_of_spells hn
      rw [List.foldl_cons, ih (fun q hq => hspells q (List.mem_cons_of_mem _ hq)), List.countP_cons, List.countP_cons]
      cases hv : n.version with
      | v4 =>
        rw [if_pos ((hR .v4 _ _ _ _ n hn).mpr hv)] at hstep
        obtain ⟨hadded,hrest⟩ := Prod.mk.inj hstep
        obtain ⟨hremoved,herrors⟩ := Prod.mk.inj hrest
        simp only [hadded, hremoved, herrors, hv6, hv, reduceCtorEq, decide_false, Bool.not_false, if_true, Bool.false_eq_true,
          if_false, Nat.add_zero]
        rw [Nat.add_assoc, Nat.add_comm 1]
      | v6 =>
        have hnot : ¬ n.version = Family.v4.version := by rw [hv]; decide
        rw [if_neg (fun h => hnot ((hR _ _ _ _ _ n hn).mp h))] at hstep
        obtain ⟨hadded,hrest⟩ := Prod.mk.inj hstep
        obtain ⟨hremoved,herrors⟩ := Prod.mk.inj hrest
        simp only [hadded, hremoved, herrors, hv6, hv, decide_true, Bool.not_true, if_true, Bool.false_eq_true,
          if_false, Nat.add_zero]
        rw [Nat.add_assoc, Nat.add_comm 1]
  rw [MikroTikRESTAdapter.applyAdds, hfold]
  simp only [Nat.zero_add]

/-! ## Removals -/

def Router.dropRow (r : Router) (x : Family × String) : Router :=
  r.put x.1 ((r.tables x.1).remove (fun row => row.handle = x.2))

theorem resource_of_row {r : Router} {f : Family} {k : String} (h : (r.row f k).isSome = true) :
    r.resource f = some (r.tables f) := by
  unfold Router.row Router.resource at *
  by_cases h6 : f = .v6 ∧ r.hasV6 = false
  · simp [h6] at h
  · exact if_neg h6

theorem row_dropRow {r : Router} {x y : Family × String} (hx : (r.row x.1 x.2).isSome = true) (hne : y ≠ x) :
    (r.dropRow x).row y.1 y.2 = r.row y.1 y.2 := by
  obtain ⟨f,k⟩ := x
  obtain ⟨g,j⟩ := y
  have hres := resource_of_row hx
  rw [Router.dropRow, row_put hres]
  split
  · next hg =>
    dsimp only at hg
    subst hg
    have hjk : j ≠ k := fun he => hne (he ▸ rfl)
    rw [KeyedTable.find_remove, row_of_resource hres]
    cases hj : (r.tables g).find j with
    | none => rfl
    | some row =>
      have hkey : row.handle = j := (KeyedTable.find_eq_some.mp hj).2
      simp [Option.filter_some, hkey, hjk]
  · rfl

theorem removalTarget_tagged (f : Family) (k : String) : removalTarget (f.tag ++ k) = (f,k) := by
  have hdrop : ∀ t : String, t.toList.length = 3 → dropStart (t ++ k) 3 = k := by
    intro t ht
    rw [dropStart, String.toList_append, List.drop_left' ht, String.ofList_toList]
  have hne : Family.v4.path ≠ Family.v6.path := by decide
  cases f with
  | v4 =>
    have hno : startsWith ("v4:" ++ k) "v6:" = false := by
      rw [startsWith, String.toList_append]
      rfl
    simp [removalTarget, splitId, resourceOf, Family.tag, hno, startsWith_append, hne, hdrop]
  | v6 => simp [removalTarget, splitId, resourceOf, Family.tag, startsWith_append, hdrop]

theorem applyRemove_present {st : Router × ApplyResult} {x : Family × String} (h : (st.1.row x.1 x.2).isSome = true) :
    (applyRemove U R st (x.1.tag ++ x.2)).1 = st.1.dropRow x ∧
    (applyRemove U R st (x.1.tag ++ x.2)).2.tally = (st.2.appliedAdd,st.2.appliedRemove + 1,st.2.errors) := by
  have hres := resource_of_row h
  rw [row_of_resource hres] at h
  unfold applyRemove
  rw [removalTarget_tagged]
  dsimp only
  rw [hres]
  dsimp only
  rw [if_pos h]
  exact ⟨rfl,rfl⟩

theorem rest_applyRemove (hW : W.Documented) {st : Router × ApplyResult} {x : Family × String} (hx : x.1 = .v4)
    (h : (st.1.row x.1 x.2).isSome = true) : (MikroTikRESTAdapter.applyRemove W st x.2).1 = st.1.dropRow x ∧
    (MikroTikRESTAdapter.applyRemove W st x.2).2.tally = (st.2.appliedAdd,st.2.appliedRemove + 1,st.2.errors) := by
  obtain ⟨f,k⟩ := x
  dsimp only at hx h ⊢
  subst hx
  rw [row_of_resource (resource_of_row h)] at h
  obtain ⟨resp,hresp,hstatus⟩ := hW.delete
  unfold MikroTikRESTAdapter.applyRemove
  dsimp only
  rw [h, hresp]
  dsimp only
  rw [if_pos hstatus]
  exact ⟨rfl,rfl⟩

/-- Removals of different rows that are all there: each counts, and each takes its row. -/
theorem removals_tally {ι : Type*} {step : Router × ApplyResult → ι → Router × ApplyResult} {place : ι → Family × String}
    (hstep : ∀ st i, (st.1.row (place i).1 (place i).2).isSome = true → (step st i).1 = st.1.dropRow (place i) ∧
      (step st i).2.tally = (st.2.appliedAdd,st.2.appliedRemove + 1,st.2.errors))
    (items : List ι) (hnodup : (items.map place).Nodup) (st : Router × ApplyResult)
    (hthere : ∀ i ∈ items, (st.1.row (place i).1 (place i).2).isSome = true) :
    (items.foldl step st).1 = (items.map place).foldl Router.dropRow st.1 ∧
    (items.foldl step st).2.tally = (st.2.appliedAdd,st.2.appliedRemove + items.length,st.2.errors) := by
  induction items generalizing st with
  | nil => exact ⟨rfl,rfl⟩
  | cons i rest ih =>
    rw [List.map_cons, List.nodup_cons] at hnodup
    have hi := hthere i List.mem_cons_self
    obtain ⟨hrouter,htally⟩ := hstep st i hi
    have hrest : ∀ j ∈ rest, ((step st i).1.row (place j).1 (place j).2).isSome = true := by
      intro j hj
      have hne : place j ≠ place i := fun he => hnodup.1 (he ▸ List.mem_map_of_mem hj)
      rw [hrouter, row_dropRow hi hne]
      exact hthere j (List.mem_cons_of_mem _ hj)
    obtain ⟨hadded,hcounts⟩ := Prod.mk.inj htally
    obtain ⟨hremoved,herrors⟩ := Prod.mk.inj hcounts
    obtain ⟨hfinal,hcount⟩ := ih hnodup.2 (step st i) hrest
    rw [hrouter] at hfinal
    rw [hadded, hremoved, herrors] at hcount
    refine ⟨hfinal,hcount.trans ?_⟩
    rw [List.length_cons, Nat.add_assoc, Nat.add_comm 1]

theorem row_stored {r : Router} {comment : String} {answer : Except String (String × String)} {f : Family} {k : String}
    {row : ListRow} (h : r.row f k = some row) : (stored listName r .v4 comment answer).row f k = some row := by
  have hres : r.resource .v4 = some (r.tables .v4) := resource_eq (Or.inl rfl)
  cases answer with
  | error e => exact h
  | ok new =>
    obtain ⟨handle,address⟩ := new
    rw [stored, row_put hres]
    split
    · next hf =>
      subst hf
      rw [row_of_resource hres] at h
      rw [KeyedTable.find_upsert, h]
      split <;> rfl
    · exact h

theorem row_rest_applyAdds (hW : W.Documented) {r : Router} {toAdd : List (String × String)} {f : Family} {k : String}
    {row : ListRow} (h : r.row f k = some row) :
    (MikroTikRESTAdapter.applyAdds U R W listName r toAdd).1.row f k = some row := by
  unfold MikroTikRESTAdapter.applyAdds
  have hinit : ((r,{}) : Router × ApplyResult).1.row f k = some row := h
  refine List.foldlRecOn (motive := fun st : Router × ApplyResult => st.1.row f k = some row) toAdd _ hinit ?_
  intro st hst p _
  rw [(rest_applyAdd U R listName hW st p).1]
  exact row_stored hst

end

/-! ## A cycle over each transport -/

section
variable {U : CaseMap} {R : RouterOs} {W : RestServer} {listName : String} {r : Router} {desired : List Decision} {cap : ℕ}

theorem mem_staleItems {f : Family} {x : Family × String} (h : x ∈ staleItems U listName r desired f) :
    x.1 = f ∧ ∃ row, r.row f x.2 = some row := by
  obtain ⟨row,hrow,rfl⟩ := List.mem_map.mp h
  have hown := mem_of_mem_lastByKey (List.mem_filter.mp hrow).1
  exact ⟨rfl,row,(mem_listRows.mp (List.mem_filter.mp hown).1).1⟩

theorem staleItems_nodup (f : Family) : (staleItems U listName r desired f).Nodup := by
  refine List.Nodup.map_on ?_ ((lastByKey_nodup _ _).filter _)
  intro a ha b hb he
  have hrow : ∀ {c}, c ∈ staleRows U listName r desired f → r.row f c.handle = some c := fun hc =>
    (mem_listRows.mp (List.mem_filter.mp (mem_of_mem_lastByKey (List.mem_filter.mp hc).1)).1).1
  have hhandle : a.handle = b.handle := (Prod.mk.inj he).2
  exact Option.some.inj ((hrow ha).symm.trans (hhandle ▸ hrow hb))

theorem allItems_nodup : (staleItems U listName r desired .v4 ++ staleItems U listName r desired .v6).Nodup := by
  refine List.nodup_append.mpr ⟨staleItems_nodup .v4,staleItems_nodup .v6,?_⟩
  intro x hx y hy he
  have h4 := (mem_staleItems hx).1
  rw [he, (mem_staleItems hy).1] at h4
  cases h4

def dbItems (U : CaseMap) (listName : String) (r : Router) (desired : List Decision) (cap : ℕ) : List (Family × String) :=
  (staleItems U listName r desired .v4 ++ staleItems U listName r desired .v6).take cap

def restItems (U : CaseMap) (listName : String) (r : Router) (desired : List Decision) (cap : ℕ) : List (Family × String) :=
  (staleItems U listName r desired .v4).take cap

theorem row_of_mem_dbItems {x : Family × String} (h : x ∈ dbItems U listName r desired cap) :
    ∃ row, r.row x.1 x.2 = some row := by
  rcases List.mem_append.mp (List.mem_of_mem_take h) with h | h
  · obtain ⟨hf,hrow⟩ := mem_staleItems h
    rwa [hf]
  · obtain ⟨hf,hrow⟩ := mem_staleItems h
    rwa [hf]

def dbAdds (U : CaseMap) (listName : String) (r : Router) (desired : List Decision) (cap : ℕ) : List (String × String) :=
  (reconcile U desired (addressListOf apiEntry r listName)).toAdd.take cap

def restAdds (U : CaseMap) (W : RestServer) (listName : String) (r : Router) (desired : List Decision) (cap : ℕ) :
    List (String × String) := (reconcile U desired (MikroTikRESTAdapter.snapshot W r listName)).toAdd.take cap

variable (U R desired cap) in
/-- What a cycle over the binary API leaves, given its batches. -/
theorem db_cycle (hr : WellKept r listName) :
    let st := applyAdds U R listName r (dbAdds U listName r desired cap)
    (MikroTikDBAdapter.cycle U R listName r desired cap).1 = (dbItems U listName r desired cap).foldl Router.dropRow st.1 ∧
    (MikroTikDBAdapter.cycle U R listName r desired cap).2.tally =
      (st.2.appliedAdd,st.2.appliedRemove + (dbItems U listName r desired cap).length,st.2.errors) := by
  have hcycle : MikroTikDBAdapter.cycle U R listName r desired cap =
      (dbItems U listName r desired cap).foldl (fun st x => applyRemove U R st (x.1.tag ++ x.2))
        (applyAdds U R listName r (dbAdds U listName r desired cap)) := by
    rw [MikroTikDBAdapter.cycle, db_toRemove hr, Diff.apply, List.foldl_map, ← dbItems, ← dbAdds]
  have hnodup : ((dbItems U listName r desired cap).map (fun x => x)).Nodup := by
    rw [List.map_id']
    exact (List.take_sublist _ _).nodup allItems_nodup
  have hstep : ∀ (st : Router × ApplyResult) (x : Family × String), (st.1.row x.1 x.2).isSome = true →
      (applyRemove U R st (x.1.tag ++ x.2)).1 = st.1.dropRow x ∧ (applyRemove U R st (x.1.tag ++ x.2)).2.tally =
        (st.2.appliedAdd,st.2.appliedRemove + 1,st.2.errors) := fun _ _ hx => applyRemove_present hx
  have hthere : ∀ x ∈ dbItems U listName r desired cap,
      ((applyAdds U R listName r (dbAdds U listName r desired cap)).1.row x.1 x.2).isSome = true := by
    intro x hx
    obtain ⟨row,hrow⟩ := row_of_mem_dbItems hx
    rw [row_applyAdds hrow]
    rfl
  have h := removals_tally hstep (dbItems U listName r desired cap) hnodup _ hthere
  rw [List.map_id'] at h
  rw [hcycle]
  exact h

variable (U R desired cap) in
/-- What a cycle over the REST API leaves, given its batches. -/
theorem rest_cycle (hW : W.Documented) (hr : WellKept r listName) :
    let st := MikroTikRESTAdapter.applyAdds U R W listName r (restAdds U W listName r desired cap)
    (MikroTikRESTAdapter.cycle U R W listName r desired cap).1 =
      (restItems U listName r desired cap).foldl Router.dropRow st.1 ∧
    (MikroTikRESTAdapter.cycle U R W listName r desired cap).2.tally =
      (st.2.appliedAdd,st.2.appliedRemove + (restItems U listName r desired cap).length,st.2.errors) := by
  have hcycle : MikroTikRESTAdapter.cycle U R W listName r desired cap =
      ((restItems U listName r desired cap).map Prod.snd).foldl (MikroTikRESTAdapter.applyRemove W)
        (MikroTikRESTAdapter.applyAdds U R W listName r (restAdds U W listName r desired cap)) := by
    rw [MikroTikRESTAdapter.cycle, rest_toRemove hW hr, MikroTikRESTAdapter.apply, ← restItems, ← restAdds]
  have hplace : ((restItems U listName r desired cap).map Prod.snd).map (fun k => (Family.v4,k)) =
      restItems U listName r desired cap := by
    rw [List.map_map]
    conv_rhs => rw [← List.map_id (restItems U listName r desired cap)]
    refine List.map_congr_left (fun x hx => ?_)
    exact Prod.ext (mem_staleItems (List.mem_of_mem_take hx)).1.symm rfl
  have hnodup : (restItems U listName r desired cap).Nodup := (List.take_sublist _ _).nodup (staleItems_nodup .v4)
  have hstep : ∀ (st : Router × ApplyResult) (k : String), (st.1.row .v4 k).isSome = true →
      (MikroTikRESTAdapter.applyRemove W st k).1 = st.1.dropRow (.v4,k) ∧ (MikroTikRESTAdapter.applyRemove W st k).2.tally =
        (st.2.appliedAdd,st.2.appliedRemove + 1,st.2.errors) :=
    fun _ k hk => rest_applyRemove (x := (.v4,k)) hW rfl hk
  have hthere : ∀ k ∈ (restItems U listName r desired cap).map Prod.snd,
      ((MikroTikRESTAdapter.applyAdds U R W listName r (restAdds U W listName r desired cap)).1.row .v4 k).isSome = true := by
    intro k hk
    obtain ⟨x,hx,rfl⟩ := List.mem_map.mp hk
    obtain ⟨_,row,hrow⟩ := mem_staleItems (List.mem_of_mem_take hx)
    rw [row_rest_applyAdds hW hrow]
    rfl
  have h := removals_tally hstep ((restItems U listName r desired cap).map Prod.snd) (by rw [hplace]; exact hnodup) _ hthere
  rw [hplace, List.length_map] at h
  rw [hcycle]
  exact h

/-! ## When the batches are one -/

theorem take_filter {α : Type*} {q : α → Bool} {l : List α} {n : ℕ} (h : ∀ a ∈ l.take n, q a = true) :
    (l.filter q).take n = l.take n := by
  induction l generalizing n with
  | nil => rfl
  | cons a rest ih =>
    cases n with
    | zero => rfl
    | succ n =>
      rw [List.take_succ_cons] at h ⊢
      rw [List.filter_cons_of_pos (h a List.mem_cons_self), List.take_succ_cons,
        ih (fun b hb => h b (List.mem_cons_of_mem _ hb))]

theorem ownedAddrs_map {g : ListRow → Entry} (hcomment : ∀ row, isOwned (g row).comment = isOwned row.comment)
    (haddress : ∀ row, (g row).address = some row.address) (f : Family) :
    ownedAddrs U ((listRows r listName f).map g) = (ownRows r listName f).map (rowNorm U) := by
  rw [ownedAddrs, owned_map hcomment, List.map_map]
  refine List.map_congr_left (fun row _ => ?_)
  rw [Function.comp_apply, haddress, rowNorm]

theorem ownedAddrs_snapshot (hW : W.Documented) : ownedAddrs U (MikroTikRESTAdapter.snapshot W r listName) =
    (ownRows r listName .v4).map (rowNorm U) := by
  rw [snapshot_eq hW]
  exact ownedAddrs_map isOwned_snapshotEntry (fun _ => rfl) .v4

theorem ownedAddrs_addressListOf : ownedAddrs U (addressListOf apiEntry r listName) =
    (ownRows r listName .v4).map (rowNorm U) ++ (ownRows r listName .v6).map (rowNorm U) := by
  have happend : ∀ l m : List Entry, ownedAddrs U (l ++ m) = ownedAddrs U l ++ ownedAddrs U m := by
    intro l m
    rw [ownedAddrs, List.filter_append, List.map_append]
    rfl
  have hfamily : ∀ f, ownedAddrs U ((listRows r listName f).map (fun row => tagFamily f (apiEntry row))) =
      (ownRows r listName f).map (rowNorm U) := fun f => ownedAddrs_map (fun _ => rfl) (fun _ => rfl) f
  rw [addressListOf, happend, hfamily, hfamily]

theorem map_fst_restAdds (hW : W.Documented) :
    (restAdds U W listName r desired cap).map Prod.fst = (missingFromV4 U listName r desired).take cap := by
  rw [restAdds, List.map_take, map_fst_toAdd, ownedAddrs_snapshot hW, missingFromV4]

theorem mem_desiredKeys_of_toAdd {entries : List Entry} {p : String × String}
    (h : p ∈ (reconcile U desired entries).toAdd.take cap) : p.1 ∈ desiredKeys desired := by
  have hfst : p.1 ∈ (reconcile U desired entries).toAdd.map Prod.fst := List.mem_map_of_mem (List.mem_of_mem_take h)
  rw [map_fst_toAdd] at hfst
  exact (List.mem_filter.mp hfst).1

theorem ownRows_v6_nil (h6 : r.hasV6 = false) : ownRows r listName .v6 = [] := by
  have hres : r.resource .v6 = none := if_pos ⟨rfl,h6⟩
  rw [ownRows, listRows, hres]
  rfl

/-- Where IPv4 work fills the batch, the IPv6 list does not change it. -/
theorem dbAdds_eq (hW : W.Documented) (hr : WellKept r listName) (hdesired : ∀ k ∈ desiredKeys desired, ∃ n, Spells k n)
    (h : r.hasV6 = false ∨ ∀ k ∈ (missingFromV4 U listName r desired).take cap, isIpv6 k = false) :
    dbAdds U listName r desired cap = restAdds U W listName r desired cap := by
  unfold dbAdds restAdds
  rw [toAdd_eq, toAdd_eq, ownedAddrs_snapshot hW, ownedAddrs_addressListOf, ← List.map_take, ← List.map_take]
  congr 1
  have hsplit : (desiredByAddr desired).items.filter (fun p => normalizeAddr U (some p.1) ∉
        (ownRows r listName .v4).map (rowNorm U) ++ (ownRows r listName .v6).map (rowNorm U)) =
      ((desiredByAddr desired).items.filter (fun p => normalizeAddr U (some p.1) ∉ (ownRows r listName .v4).map (rowNorm U))).filter
        (fun p => normalizeAddr U (some p.1) ∉ (ownRows r listName .v6).map (rowNorm U)) := by
    rw [List.filter_filter]
    refine List.filter_congr (fun p _ => ?_)
    rw [← Bool.decide_and]
    refine decide_eq_decide.mpr ?_
    rw [List.mem_append, not_or, and_comm]
  rw [hsplit]
  refine take_filter (fun p hp => decide_eq_true (fun hcovered => ?_))
  rcases h with h6 | hv4
  · rw [ownRows_v6_nil h6] at hcovered
    cases hcovered
  · have hmissing : p.1 ∈ (missingFromV4 U listName r desired).take cap := by
      rw [← map_fst_restAdds hW, restAdds, toAdd_eq, ownedAddrs_snapshot hW, ← List.map_take, List.map_map]
      exact List.mem_map.mpr ⟨p,hp,rfl⟩
    obtain ⟨n,hn⟩ := hdesired p.1 (List.mem_filter.mp (List.mem_of_mem_take hmissing)).1
    have hnot := hv4 p.1 hmissing
    rw [isIpv6_of_spells hn, decide_eq_false_iff_not] at hnot
    obtain ⟨row,hrow,heq⟩ := List.mem_map.mp hcovered
    obtain ⟨hlisted,howned⟩ := List.mem_filter.mp hrow
    obtain ⟨hthere,hlist⟩ := mem_listRows.mp hlisted
    obtain ⟨m,hm,hmv⟩ := hr.own _ _ _ hthere hlist howned
    exact hnot ((version_eq_of_normalizeAddr hn hm heq.symm).trans hmv)

theorem dbItems_eq (h : staleRows U listName r desired .v6 = [] ∨ cap ≤ (staleRows U listName r desired .v4).length) :
    dbItems U listName r desired cap = restItems U listName r desired cap := by
  unfold dbItems restItems
  rcases h with hnil | hfull
  · rw [staleItems, staleItems, hnil, List.map_nil, List.append_nil]
  · refine List.take_append_of_le_length ?_
    rw [staleItems, List.length_map]
    exact hfull

theorem V4Only.stale (h : V4Only U listName r desired cap) :
    staleRows U listName r desired .v6 = [] ∨ cap ≤ (staleRows U listName r desired .v4).length := by
  rcases h with h6 | ⟨_,hstale⟩
  · refine Or.inl ?_
    rw [staleRows, ownRows_v6_nil h6]
    rfl
  · exact hstale

/-- Then every add of the batch goes to the IPv4 list, or there is no other. -/
theorem V4Only.spells (hW : W.Documented) (hdesired : ∀ k ∈ desiredKeys desired, ∃ n, Spells k n)
    (h : V4Only U listName r desired cap) {p : String × String} (hp : p ∈ restAdds U W listName r desired cap) :
    ∃ n, Spells p.1 n ∧ (n.version = .v4 ∨ r.hasV6 = false) := by
  obtain ⟨n,hn⟩ := hdesired p.1 (mem_desiredKeys_of_toAdd hp)
  refine ⟨n,hn,?_⟩
  rcases h with h6 | ⟨hv4,_⟩
  · exact Or.inr h6
  · have hnot := hv4 p.1 (map_fst_restAdds hW ▸ List.mem_map_of_mem hp)
    rw [isIpv6_of_spells hn, decide_eq_false_iff_not] at hnot
    left
    cases hv : n.version with
    | v4 => rfl
    | v6 => exact absurd hv hnot

/-- With both lists there, equal reports leave no error for REST to make and no removal for it to miss. -/
theorem v4Only_of_tally (hW : W.Documented) (hR : AcceptsOwnFamily U R) (hr : WellKept r listName)
    (hdesired : ∀ k ∈ desiredKeys desired, ∃ n, Spells k n) (h6 : r.hasV6 = true)
    (h : (MikroTikDBAdapter.cycle U R listName r desired cap).2.tally =
      (MikroTikRESTAdapter.cycle U R W listName r desired cap).2.tally) :
    (∀ k ∈ (missingFromV4 U listName r desired).take cap, isIpv6 k = false) ∧
      (staleRows U listName r desired .v6 = [] ∨ cap ≤ (staleRows U listName r desired .v4).length) := by
  have hdbSpells : ∀ p ∈ dbAdds U listName r desired cap, ∃ n, Spells p.1 n :=
    fun p hp => hdesired p.1 (mem_desiredKeys_of_toAdd hp)
  have hrestSpells : ∀ p ∈ restAdds U W listName r desired cap, ∃ n, Spells p.1 n :=
    fun p hp => hdesired p.1 (mem_desiredKeys_of_toAdd hp)
  obtain ⟨_,hcounts⟩ := Prod.mk.inj (tally_applyAdds listName hR h6 hdbSpells)
  obtain ⟨hdbRemoved,hdbErrors⟩ := Prod.mk.inj hcounts
  obtain ⟨_,hcounts⟩ := Prod.mk.inj (tally_rest_applyAdds listName r hW hR hrestSpells)
  obtain ⟨hrestRemoved,hrestErrors⟩ := Prod.mk.inj hcounts
  rw [(db_cycle U R desired cap hr).2, (rest_cycle U R desired cap hW hr).2, hdbRemoved, hdbErrors, hrestRemoved,
    hrestErrors] at h
  obtain ⟨_,hcounts⟩ := Prod.mk.inj h
  obtain ⟨hremoved,herrors⟩ := Prod.mk.inj hcounts
  constructor
  · intro k hk
    rw [← map_fst_restAdds hW] at hk
    obtain ⟨p,hp,rfl⟩ := List.mem_map.mp hk
    rw [← Bool.not_eq_true]
    exact List.countP_eq_zero.mp herrors.symm p hp
  · have hlen : ∀ f, (staleItems U listName r desired f).length = (staleRows U listName r desired f).length :=
      fun f => List.length_map _
    rw [Nat.zero_add, Nat.zero_add, dbItems, restItems, List.length_take, List.length_take, List.length_append,
      hlen, hlen] at hremoved
    by_cases hfull : cap ≤ (staleRows U listName r desired .v4).length
    · exact Or.inr hfull
    · refine Or.inl (List.eq_nil_of_length_eq_zero ?_)
      omega

end

/-- The REST adapter does what the binary one does exactly when the cycle has no use for the
IPv6 list: the router has none, or IPv4 work fills both batches. -/
theorem transports_interchangeable_iff (U : CaseMap) (R : RouterOs) (W : RestServer) (listName : String) (r : Router)
    (desired : List Decision) (cap : ℕ) (hW : W.Documented) (hR : AcceptsOwnFamily U R) (hr : WellKept r listName)
    (hdesired : ∀ k ∈ desiredKeys desired, ∃ n, Spells k n) :
    Interchangeable (MikroTikDBAdapter.cycle U R listName r desired cap)
      (MikroTikRESTAdapter.cycle U R W listName r desired cap) ↔ V4Only U listName r desired cap := by
  obtain ⟨hdb,hdbTally⟩ := db_cycle U R desired cap hr
  obtain ⟨hrest,hrestTally⟩ := rest_cycle U R desired cap hW hr
  constructor
  · rintro ⟨-,htally⟩
    by_cases h6 : r.hasV6 = false
    · exact Or.inl h6
    · exact Or.inr (v4Only_of_tally hW hR hr hdesired ((Bool.not_eq_false _).mp h6) htally)
  · intro h
    have hadds : dbAdds U listName r desired cap = restAdds U W listName r desired cap :=
      dbAdds_eq hW hr hdesired (h.imp_right And.left)
    obtain ⟨hrouter,htally⟩ := same_applyAdds listName hW hR (fun _ hp => h.spells hW hdesired hp)
    rw [hadds, dbItems_eq h.stale] at hdb hdbTally
    have hone : (MikroTikDBAdapter.cycle U R listName r desired cap).1 =
        (MikroTikRESTAdapter.cycle U R W listName r desired cap).1 := by
      rw [hdb, hrest, hrouter]
    obtain ⟨hadded,hcounts⟩ := Prod.mk.inj htally
    obtain ⟨hremoved,herrors⟩ := Prod.mk.inj hcounts
    refine ⟨fun f list address comment => by rw [hone],?_⟩
    rw [hdbTally, hrestTally, hadded, hremoved, herrors]

/-! ## A ban of each family -/

def familyRouterOs : RouterOs where
  add f t list address _ :=
    if addFamily address ≠ f then .error "invalid value for argument address"
    else if t.rows.any (fun row => row.list = list && row.address = address) then .error "failure: already have such entry"
    else .ok ("*" ++ toString (t.rows.length + 1),address)
  removeAbsent _ _ := "no such item"

theorem acceptsOwnFamily_familyRouterOs : AcceptsOwnFamily .ascii familyRouterOs := by
  intro f t list a comment n hn
  have hfamily := addFamily_of_spells hn
  unfold familyRouterOs
  dsimp only
  by_cases hf : addFamily a = f
  · rw [if_neg (not_not.mpr hf)]
    have htaken : taken .ascii (if t.rows.any (fun row => row.list = list && row.address = a) then
        .error "failure: already have such entry" else .ok ("*" ++ toString (t.rows.length + 1),a)) = true := by
      split
      · decide
      · rfl
    exact iff_of_true htaken (hf ▸ hfamily.symm)
  · rw [if_pos hf]
    refine iff_of_false (by decide) (fun hv => hf ?_)
    rw [← hfamily] at hv
    revert hv
    cases addFamily a <;> cases f <;> decide

def webServer : RestServer where
  get rows := .ok (some (rows.map apiEntry))
  put
    | .ok _ => .ok ⟨201,some {},""⟩
    | .error e => .ok ⟨400,some { detail := some e },e⟩
  delete there := if there then .ok ⟨204,some {},""⟩ else .ok ⟨404,some { detail := some "no such item" },"no such item"⟩

theorem documented_webServer : webServer.Documented where
  get _ := rfl
  put_ok _ := ⟨_,rfl,Or.inr rfl⟩
  put_error e := by
    refine ⟨_,_,rfl,rfl,rfl,?_⟩
    by_cases h : e = "" <;> simp [Body.said, orElse, h]
  delete := ⟨_,rfl,Or.inr rfl⟩

def liftedRow : ListRow := ⟨"*1","crowdsec","192.0.2.7",some "protek:local:ssh-bf:4"⟩

/-- An own row in each table that nothing desires any more. -/
def mixedRouter : Router where
  tables
    | .v4 => oneRow liftedRow
    | .v6 => oneRow expiredRow
  hasV6 := true

def mixedBans : List Decision := [{ value := some "203.0.113.9" },{ value := some "2001:db8::2" }]

theorem wellKept_mixedRouter : WellKept mixedRouter "crowdsec" := by
  have hrow : ∀ f k row, mixedRouter.row f k = some row → k = row.handle ∧ row = (match f with
      | .v4 => liftedRow
      | .v6 => expiredRow) := by
    intro f k row h
    cases f with
    | v4 =>
      obtain ⟨hmem,hkey⟩ := KeyedTable.find_eq_some.mp (show (oneRow liftedRow).find k = some row from h)
      exact ⟨hkey.symm,List.mem_singleton.mp hmem⟩
    | v6 =>
      obtain ⟨hmem,hkey⟩ := KeyedTable.find_eq_some.mp (show (oneRow expiredRow).find k = some row from h)
      exact ⟨hkey.symm,List.mem_singleton.mp hmem⟩
  constructor
  · intro f k row h
    obtain ⟨rfl,rfl⟩ := hrow f k row h
    cases f <;> decide
  · intro f k row h _ _
    obtain ⟨_,rfl⟩ := hrow f k row h
    cases f with
    | v4 =>
      obtain ⟨n,hn⟩ := @spells_of_isSome "192.0.2.7" (by decide) (by decide)
      exact ⟨n,hn,(addFamily_of_spells hn).symm.trans (by decide)⟩
    | v6 =>
      obtain ⟨n,hn⟩ := @spells_of_isSome "2001:db8::1" (by decide) (by decide)
      exact ⟨n,hn,(addFamily_of_spells hn).symm.trans (by decide)⟩

theorem spells_mixedBans : ∀ k ∈ desiredKeys mixedBans, ∃ n, Spells k n := by
  have hkeys : desiredKeys mixedBans = ["203.0.113.9","2001:db8::2"] := by decide
  intro k hk
  rw [hkeys, List.mem_cons, List.mem_singleton] at hk
  rcases hk with rfl | rfl
  · exact spells_of_isSome (by decide) (by decide)
  · exact spells_of_isSome (by decide) (by decide)

/-- With room for one change of each kind, both transports do the IPv4 ones. -/
theorem transports_interchangeable_iff_example :
    V4Only .ascii "crowdsec" mixedRouter mixedBans 1 ∧
    (Interchangeable (MikroTikDBAdapter.cycle .ascii familyRouterOs "crowdsec" mixedRouter mixedBans 1)
      (MikroTikRESTAdapter.cycle .ascii familyRouterOs webServer "crowdsec" mixedRouter mixedBans 1) ↔
      V4Only .ascii "crowdsec" mixedRouter mixedBans 1) := by
  have hfull : 1 ≤ (staleRows .ascii "crowdsec" mixedRouter mixedBans .v4).length := by decide
  exact ⟨Or.inr ⟨by decide,Or.inr hfull⟩,transports_interchangeable_iff .ascii familyRouterOs webServer "crowdsec" mixedRouter
    mixedBans 1 documented_webServer acceptsOwnFamily_familyRouterOs wellKept_mixedRouter spells_mixedBans⟩

/-- With room for both, REST reports an error for the IPv6 ban and leaves the expired row. -/
theorem rest_misses_ipv6 :
    ¬ ∀ (U : CaseMap) (R : RouterOs) (W : RestServer) (listName : String) (r : Router) (desired : List Decision) (cap : ℕ),
      W.Documented → AcceptsOwnFamily U R → WellKept r listName → (∀ k ∈ desiredKeys desired, ∃ n, Spells k n) →
      Interchangeable (MikroTikDBAdapter.cycle U R listName r desired cap)
        (MikroTikRESTAdapter.cycle U R W listName r desired cap) := by
  intro h
  have hdb : (MikroTikDBAdapter.cycle .ascii familyRouterOs "crowdsec" mixedRouter mixedBans 2).2.tally = (2,2,0) := by decide +kernel
  have hrest : (MikroTikRESTAdapter.cycle .ascii familyRouterOs webServer "crowdsec" mixedRouter mixedBans 2).2.tally =
      (1,1,1) := by decide +kernel
  have htally := (h .ascii familyRouterOs webServer "crowdsec" mixedRouter mixedBans 2 documented_webServer
    acceptsOwnFamily_familyRouterOs wellKept_mixedRouter spells_mixedBans).2
  rw [hdb, hrest] at htally
  cases htally

end Protek.Diff
