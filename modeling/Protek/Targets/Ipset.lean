import Protek.Diff.Occupancy
import Protek.Diff.Router
import Mathlib.Data.List.Dedup

/-! # The ipset of a host behind the diff engine

The kernel keeps what it has read of an address, and lists it in its own words. The diff
compares these with the words of the ban, and a ban that it does not find again is taken
for a missing one and for a stale one in turn.
-/
namespace Protek.Targets
open Foundation Foundation.PyText Foundation.IpAddress Protek.Diff

/-! ## The kernel -/

/-- How a call of the `ipset` binary ends. -/
inductive CompletedRun
  | exit (returncode : ℕ) (output : String)
  | raised (error : String)
  deriving DecidableEq

/-- The sets of a host. `members` holds each member beside the name of its set, as the kernel prints it, and
`read` says what a set makes of an address, `none` where it refuses it. -/
structure Ipset (σ : Type) where
  members : σ → List (String × String)
  read : String → String → Option String
  maxElem : String → ℕ
  add : σ → String → String → σ × CompletedRun
  del : σ → String → String → σ × CompletedRun
  list : σ → String → Option (List String)

def Ipset.inSet {σ : Type} (K : Ipset σ) (s : σ) (setname : String) : List (String × String) :=
  (K.members s).filter (fun x => x.1 = setname)

/-- A member is printed as what it is read as; `add` and `del` with `-exist` end well where the address can be read and
fits, and `list` prints the members behind a line of its own. -/
structure Ipset.Documented {σ : Type} (K : Ipset σ) : Prop where
  nodup : ∀ s, (K.members s).Nodup
  reads : ∀ s x, x ∈ K.members s → K.read x.1 x.2 = some x.2
  plain : ∀ setname a m, K.read setname a = some m → m ≠ "" ∧ ∀ c ∈ m.toList, isSpace c = false
  add : ∀ s setname a m, K.read setname a = some m → ((setname,m) ∈ K.members s ∨ (K.inSet s setname).length < K.maxElem setname) →
    ∀ x, x ∈ K.members (K.add s setname a).1 ↔ x ∈ K.members s ∨ x = (setname,m)
  addRefused : ∀ s setname a, K.read setname a = none → ∀ x, x ∈ K.members (K.add s setname a).1 ↔ x ∈ K.members s
  del : ∀ s setname m, K.read setname m = some m →
    ∀ x, x ∈ K.members (K.del s setname m).1 ↔ x ∈ K.members s ∧ x ≠ (setname,m)
  list : ∀ s setname, ∃ header ms, K.list s setname = some (header ++ "Members:" :: ms) ∧
    (∀ line ∈ header, startsWith line "Members:" = false) ∧ ms.Perm ((K.inSet s setname).map Prod.snd)

/-! ## The adapter -/

structure IpsetBouncer where
  name : String := "iptables"
  setV4 : String := "protek-bans"
  setV6 : String := "protek-bans6"

namespace IpsetBouncer

/-- `_set_for` -/
def setFor (b : IpsetBouncer) (addr : String) : String :=
  if ':' ∈ addr.toList ∨ (ipNetwork addr).any (fun n => n.version = .v6) then b.setV6 else b.setV4

/-- What stands behind the line `Members:`. -/
def memberLines : List String → List String
  | [] => []
  | line :: rest => if startsWith line "Members:" then (rest.map strip).filter (fun addr => addr ≠ "") else memberLines rest

def entry (setname addr : String) : Entry where
  address := some addr
  comment := some "protek:ipset::0"
  dotId := some (setname ++ "|" ++ addr)
  list := some setname

section
variable {σ : Type} (K : Ipset σ) (b : IpsetBouncer)

/-- `_count`, but for its exceptions. -/
def count (s : σ) (setname : String) : ℕ := ((K.list s setname).elim [] memberLines).length

def setEntries (s : σ) (setname : String) : List Entry := ((K.list s setname).elim [] memberLines).map (entry setname)

def snapshot (s : σ) : List Entry := setEntries K s b.setV4 ++ setEntries K s b.setV6

def applyAdd (st : σ × ApplyResult) (p : String × String) : σ × ApplyResult :=
  match K.add st.1 (b.setFor p.1) p.1 with
  | (s,.exit 0 _) => (s,st.2.added p.1 none)
  | (s,.exit _ output) => (s,st.2.fail p.1 "add" (errorText output))
  | (s,.raised e) => (s,st.2.fail p.1 "add" (errorText e))

/-- A handle falls into its set and its address at the first bar; one without a bar is passed over. -/
def splitHandle (rid : String) : Option (String × String) :=
  match splitMax '|' 1 rid.toList with
  | [target,addr] => some (String.ofList target,String.ofList addr)
  | _ => none

def applyRemove (st : σ × ApplyResult) (rid : String) : σ × ApplyResult :=
  match splitHandle rid with
  | none => st
  | some (target,addr) =>
    match K.del st.1 target addr with
    | (s,.exit 0 _) => (s,st.2.removed addr none)
    | (s,.exit _ output) => (s,st.2.fail addr "remove" (errorText output))
    | (s,.raised e) => (s,st.2.fail addr "remove" (errorText e))

def apply (s : σ) (toAdd : List (String × String)) (toRemoveIds : List String) : σ × ApplyResult :=
  toRemoveIds.foldl (applyRemove K) (toAdd.foldl (applyAdd K b) (s,{}))

/-- A live cycle. -/
def cycle (U : CaseMap) (desired : List Decision) (cap : ℕ) (s : σ) : σ :=
  let diff := reconcile U desired (snapshot K b s)
  (apply K b s (diff.toAdd.take cap) (diff.toRemove.take cap)).1

def run (U : CaseMap) (desired : List Decision) (cap : ℕ) (s : σ) (n : ℕ) : σ := (cycle K b U desired cap)^[n] s

end

/-- Two sets, and no bar in their names. -/
structure Apart (b : IpsetBouncer) : Prop where
  ne : b.setV4 ≠ b.setV6
  bar4 : '|' ∉ b.setV4.toList
  bar6 : '|' ∉ b.setV6.toList

def Owns (b : IpsetBouncer) (setname : String) : Prop := setname = b.setV4 ∨ setname = b.setV6

/-! ## What a snapshot shows -/

section
variable {σ : Type} {K : Ipset σ} {b : IpsetBouncer} {s : σ}

theorem memberLines_append {header ms : List String} (hheader : ∀ line ∈ header, startsWith line "Members:" = false)
    (hms : ∀ m ∈ ms, m ≠ "" ∧ ∀ c ∈ m.toList, isSpace c = false) : memberLines (header ++ "Members:" :: ms) = ms := by
  induction header with
  | nil =>
    have hmap : ms.map strip = ms := (List.map_congr_left (fun m hm => strip_eq_self (hms m hm).2)).trans (List.map_id' ms)
    rw [List.nil_append, memberLines, if_pos (by decide), hmap]
    exact List.filter_eq_self.mpr (fun m hm => decide_eq_true (hms m hm).1)
  | cons line header ih =>
    rw [List.cons_append, memberLines, if_neg (by rw [hheader line List.mem_cons_self]; decide)]
    exact ih (fun l hl => hheader l (List.mem_cons_of_mem _ hl))

def owned (K : Ipset σ) (b : IpsetBouncer) (s : σ) : List (String × String) := K.inSet s b.setV4 ++ K.inSet s b.setV6

theorem setEntries_eq (hK : K.Documented) (s : σ) (setname : String) :
    ∃ xs : List (String × String), setEntries K s setname = xs.map (fun x => entry x.1 x.2) ∧ xs.Perm (K.inSet s setname) := by
  obtain ⟨header,ms,hlist,hheader,hperm⟩ := hK.list s setname
  have hplain : ∀ m ∈ ms, m ≠ "" ∧ ∀ c ∈ m.toList, isSpace c = false := by
    intro m hm
    obtain ⟨x,hx,rfl⟩ := List.mem_map.mp (hperm.mem_iff.mp hm)
    exact hK.plain _ _ _ (hK.reads s x (List.mem_of_mem_filter hx))
  have hset : ((K.inSet s setname).map Prod.snd).map (fun m => (setname,m)) = K.inSet s setname := by
    rw [List.map_map]
    refine (List.map_congr_left (fun x hx => ?_)).trans (List.map_id' _)
    have hx1 : x.1 = setname := by simpa using (List.mem_filter.mp hx).2
    rw [← hx1]
    rfl
  refine ⟨ms.map (fun m => (setname,m)),?_,hset ▸ hperm.map _⟩
  rw [setEntries, hlist, Option.elim_some, memberLines_append hheader hplain, List.map_map]
  rfl

theorem snapshot_eq (hK : K.Documented) (b : IpsetBouncer) (s : σ) :
    ∃ xs : List (String × String), snapshot K b s = xs.map (fun x => entry x.1 x.2) ∧ xs.Perm (owned K b s) := by
  obtain ⟨xs,hxs,hp⟩ := setEntries_eq hK s b.setV4
  obtain ⟨ys,hys,hq⟩ := setEntries_eq hK s b.setV6
  exact ⟨xs ++ ys,by rw [snapshot, hxs, hys, List.map_append],hp.append hq⟩

def handle (x : String × String) : String := x.1 ++ "|" ++ x.2

theorem eid_entry (x : String × String) : (entry x.1 x.2).eid = handle x := by
  have hne : (x.1 ++ "|" ++ x.2).toList ≠ [] := by simp
  have hne' : x.1 ++ "|" ++ x.2 ≠ "" := fun h => hne (by rw [h]; rfl)
  rw [Entry.eid, entry, handle]
  simp [orElse, hne']

/-- The member that a desired address is stored as. -/
def Stored (K : Ipset σ) (b : IpsetBouncer) (k : String) (x : String × String) : Prop :=
  x.1 = b.setFor k ∧ K.read x.1 k = some x.2

def possible (K : Ipset σ) (b : IpsetBouncer) (desired : List Decision) (s : σ) : List (String × String) :=
  (owned K b s ++ (desiredKeys desired).filterMap (fun k => (K.read (b.setFor k) k).map (fun m => (b.setFor k,m)))).dedup

instance (K : Ipset σ) (b : IpsetBouncer) (k : String) (x : String × String) : Decidable (Stored K b k x) :=
  inferInstanceAs (Decidable (_ ∧ _))

/-- Words that the diff does not tell apart are words for one member, among all that these sets can come to hold; and all of
it fits into a set and into a batch. -/
structure Told (K : Ipset σ) (b : IpsetBouncer) (U : CaseMap) (desired : List Decision) (cap : ℕ) (s : σ) : Prop where
  apart : ∀ x ∈ possible K b desired s, ∀ y ∈ possible K b desired s,
    normalizeAddr U (some x.2) = normalizeAddr U (some y.2) → x = y
  covers : ∀ k ∈ desiredKeys desired, ∀ x ∈ possible K b desired s,
    normalizeAddr U (some x.2) = normalizeAddr U (some k) → Stored K b k x
  fits : ∀ setname, b.Owns setname → ((possible K b desired s).filter (fun x => x.1 = setname)).length ≤ K.maxElem setname
  batch : (possible K b desired s).length ≤ cap ∧ (desiredKeys desired).length ≤ cap

variable {U : CaseMap} {desired : List Decision} {cap : ℕ} {t : σ}

theorem Stored.unique {k : String} {x y : String × String} (hx : Stored K b k x) (hy : Stored K b k y) : x = y := by
  have hset : x.1 = y.1 := hx.1.trans hy.1.symm
  have hread := hx.2
  rw [hset, hy.2] at hread
  exact Prod.ext hset (Option.some_inj.mp hread).symm

end

end IpsetBouncer
end Protek.Targets
