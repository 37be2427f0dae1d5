import Mathlib.Data.List.Dedup
import Mathlib.Data.List.Sort
import Protek.Diff.Router
import Protek.Foundation.ReadModifyWrite

/-! # A pfSense alias behind the diff engine

The REST API replaces the whole address array of an alias, so `apply` reads the
alias, edits the set and writes it back. A read that fails looks like an empty
alias, and nothing keeps two calls apart.
-/
namespace Protek.Targets
open Foundation Protek.Diff

/-- How a request ends: with a status and a text, or with an exception, a body that does not
decode included. -/
inductive Reply
  | answered (status : ℕ) (text : String)
  | raised (error : String)
  deriving DecidableEq, Repr

def Reply.ok : Reply → Bool
  | .answered status _ => status < 400
  | .raised _ => false

structure PfSenseBouncer where
  name : String := "pfsense"
  baseUrl : String
  apiKey : String
  aliasName : String := "protek_bans"
  deriving DecidableEq, Repr

/-- The replies to the requests of one `apply`: the read of the alias, the PATCH, and the
call that makes it take effect. A PATCH that raises may still have reached the firewall. -/
structure Replies where
  read : Reply
  patch : Reply
  patchArrived : Bool
  post : Reply
  deriving DecidableEq, Repr

def Replies.landed (r : Replies) : Bool :=
  match r.patch with
  | .answered status _ => status < 400
  | .raised _ => r.patchArrived

namespace PfSenseBouncer

def isConfigured (b : PfSenseBouncer) : Bool := b.baseUrl ≠ "" ∧ b.apiKey ≠ ""

def entry (b : PfSenseBouncer) (a : String) : Entry where
  dotId := some a
  list := some b.aliasName
  address := some a
  comment := some "protek:pfsense::0"

def snapshot (b : PfSenseBouncer) (content : List String) (read : Reply) : List Entry :=
  if b.isConfigured = false then []
  else match read with
    | .answered status _ => if 400 ≤ status then [] else content.map b.entry
    | .raised _ => []

/-- `sorted((current | added) - removed)`. -/
def newSet (current added removed : List String) : List String :=
  (((current ++ added).filter (fun a => a ∉ removed)).dedup).insertionSort (fun a b => a ≤ b)

/-- What the PATCH sends: the addresses of the snapshot, edited. -/
def replacement (b : PfSenseBouncer) (content : List String) (read : Reply)
    (toAdd : List (String × String)) (toRemoveIds : List String) : List String :=
  newSet ((b.snapshot content read).map (fun e => e.address.getD "")) (toAdd.map Prod.fst) toRemoveIds

def bulk (success : Bool) (error : Option String) : PushEntry := ⟨"(bulk)","patch",success,error⟩

def failed (error : String) : ApplyResult := { errors := 1, pushLog := [bulk false (some error)] }

/-- The alias after the call, and the result. -/
def apply (b : PfSenseBouncer) (content : List String) (toAdd : List (String × String)) (toRemoveIds : List String)
    (r : Replies) : List String × ApplyResult :=
  if b.isConfigured = false then (content,{ errors := 1 })
  else
    let content' := if r.landed then b.replacement content r.read toAdd toRemoveIds else content
    match r.patch with
    | .raised e => (content',failed (errorText e))
    | .answered status text =>
      if 400 ≤ status then
        (content',failed ("pfSense " ++ toString status ++ ": " ++ String.ofList (text.toList.take 200)))
      else match r.post with
        | .raised e => (content',failed (errorText e))
        | .answered _ _ =>
          (content',{ appliedAdd := (toAdd.map Prod.fst).dedup.length
                      appliedRemove := toRemoveIds.dedup.length
                      pushLog := [bulk true none] })

end PfSenseBouncer

/-! ## What one call leaves on the firewall -/

/-- An alias is a set of addresses. -/
def SameAlias (a b : List String) : Prop := ∀ x, x ∈ a ↔ x ∈ b

/-- The old content with the batch applied to it. -/
def Patched (old : List String) (toAdd : List (String × String)) (toRemoveIds : List String) (new : List String) : Prop :=
  ∀ x, x ∈ new ↔ (x ∈ old ∨ x ∈ toAdd.map Prod.fst) ∧ x ∉ toRemoveIds

namespace PfSenseBouncer
variable {b : PfSenseBouncer} {content : List String} {toAdd : List (String × String)} {toRemoveIds : List String}

theorem mem_newSet {current added removed : List String} {x : String} :
    x ∈ newSet current added removed ↔ (x ∈ current ∨ x ∈ added) ∧ x ∉ removed := by
  rw [newSet, List.mem_insertionSort, List.mem_dedup, List.mem_filter, List.mem_append, decide_eq_true_eq]

theorem snapshot_of_ok {read : Reply} (hc : b.isConfigured = true) (hr : read.ok = true) :
    b.snapshot content read = content.map b.entry := by
  unfold snapshot
  cases read with
  | raised e => simp [Reply.ok] at hr
  | answered status text =>
    have hs : status < 400 := by simpa [Reply.ok] using hr
    simp [hc, Nat.not_le.mpr hs]

theorem snapshot_of_not_ok {read : Reply} (hr : read.ok = false) : b.snapshot content read = [] := by
  unfold snapshot
  cases read with
  | raised e => simp
  | answered status text =>
    have hs : 400 ≤ status := by simpa [Reply.ok] using hr
    simp [hs]

theorem mem_replacement_of_ok {read : Reply} (hc : b.isConfigured = true) (hr : read.ok = true) {x : String} :
    x ∈ b.replacement content read toAdd toRemoveIds ↔
      (x ∈ content ∨ x ∈ toAdd.map Prod.fst) ∧ x ∉ toRemoveIds := by
  have hmap : (content.map b.entry).map (fun e => e.address.getD "") = content := by simp [entry, Function.comp_def]
  rw [replacement, snapshot_of_ok hc hr, hmap]
  exact mem_newSet

theorem mem_replacement_of_not_ok {read : Reply} (hr : read.ok = false) {x : String} :
    x ∈ b.replacement content read toAdd toRemoveIds ↔ x ∈ toAdd.map Prod.fst ∧ x ∉ toRemoveIds := by
  rw [replacement, snapshot_of_not_ok hr, List.map_nil, mem_newSet]
  simp

/-- Whatever the result says, only the PATCH decides the content. -/
theorem fst_apply (r : Replies) : (b.apply content toAdd toRemoveIds r).1 =
    if b.isConfigured = true ∧ r.landed = true then b.replacement content r.read toAdd toRemoveIds else content := by
  unfold apply
  cases hc : b.isConfigured with
  | false => simp
  | true =>
    simp only [Bool.true_eq_false, if_false, true_and]
    split
    · rfl
    · split
      · rfl
      · split <;> rfl

/-- An alias that holds what a failed read leaves is the old one, patched, when every old address
is removed or added anyway. -/
theorem patched_iff_of_not_ok {read : Reply} (hr : read.ok = false) :
    Patched content toAdd toRemoveIds (b.replacement content read toAdd toRemoveIds) ↔
      ∀ x ∈ content, x ∉ toRemoveIds → x ∈ toAdd.map Prod.fst := by
  unfold Patched
  simp only [mem_replacement_of_not_ok hr]
  constructor
  · intro h x hx hnot
    exact ((h x).mpr ⟨Or.inl hx,hnot⟩).1
  · intro h x
    constructor
    · rintro ⟨ha,hnot⟩
      exact ⟨Or.inr ha,hnot⟩
    · rintro ⟨hx | ha,hnot⟩
      · exact ⟨h x hx hnot,hnot⟩
      · exact ⟨ha,hnot⟩

/-- A call keeps to its batch unless its read fails and its PATCH lands: what is left is then
the added addresses alone. -/
theorem apply_keeps_iff (b : PfSenseBouncer) (content : List String) (toAdd : List (String × String))
    (toRemoveIds : List String) (r : Replies) :
    (SameAlias content (b.apply content toAdd toRemoveIds r).1 ∨
        Patched content toAdd toRemoveIds (b.apply content toAdd toRemoveIds r).1) ↔
      b.isConfigured = false ∨ r.landed = false ∨ r.read.ok = true ∨
      (∀ x ∈ content, x ∉ toRemoveIds → x ∈ toAdd.map Prod.fst) ∨
      (∀ x, x ∈ content ↔ x ∈ toAdd.map Prod.fst ∧ x ∉ toRemoveIds) := by
  rw [fst_apply]
  by_cases hw : b.isConfigured = true ∧ r.landed = true
  · obtain ⟨hc,hl⟩ := hw
    rw [if_pos ⟨hc,hl⟩]
    simp only [hc, hl, Bool.true_eq_false, false_or]
    cases hr : r.read.ok with
    | true =>
      have hp : Patched content toAdd toRemoveIds (b.replacement content r.read toAdd toRemoveIds) :=
        fun x => mem_replacement_of_ok hc hr
      simp [hp]
    | false =>
      have hsame : SameAlias content (b.replacement content r.read toAdd toRemoveIds) ↔
          ∀ x, x ∈ content ↔ x ∈ toAdd.map Prod.fst ∧ x ∉ toRemoveIds := by
        unfold SameAlias
        simp only [mem_replacement_of_not_ok hr]
      rw [hsame, patched_iff_of_not_ok hr]
      simp only [Bool.false_eq_true, false_or]
      exact or_comm
  · rw [if_neg hw]
    have hcond : b.isConfigured = false ∨ r.landed = false := by
      by_contra hno
      push Not at hno
      exact hw ⟨by simpa using hno.1,by simpa using hno.2⟩
    have hsame : SameAlias content content := fun _ => Iff.rfl
    simp only [hsame, true_or, true_iff]
    exact hcond.elim Or.inl (fun h => Or.inr (Or.inl h))

def exampleBouncer : PfSenseBouncer := { baseUrl := "https://192.168.1.1", apiKey := "k" }

/-- A read that times out under a batch of one ban empties an alias of two. -/
theorem apply_drops_bans :
    ¬ (SameAlias ["198.51.100.1","203.0.113.9"] (exampleBouncer.apply ["198.51.100.1","203.0.113.9"]
          [("192.0.2.1","protek:lapi:ssh-bf:7")] [] ⟨.raised "timeout",.answered 200 "",false,.answered 200 ""⟩).1 ∨
      Patched ["198.51.100.1","203.0.113.9"] [("192.0.2.1","protek:lapi:ssh-bf:7")] []
        (exampleBouncer.apply ["198.51.100.1","203.0.113.9"]
          [("192.0.2.1","protek:lapi:ssh-bf:7")] [] ⟨.raised "timeout",.answered 200 "",false,.answered 200 ""⟩).1) := by
  have hleft : (exampleBouncer.apply ["198.51.100.1","203.0.113.9"]
      [("192.0.2.1","protek:lapi:ssh-bf:7")] [] ⟨.raised "timeout",.answered 200 "",false,.answered 200 ""⟩).1 =
        ["192.0.2.1"] := by decide
  rw [hleft]
  rintro (h | h)
  · exact absurd ((h "198.51.100.1").mp (by simp)) (by decide)
  · exact absurd ((h "198.51.100.1").mpr ⟨Or.inl (by simp),by simp⟩) (by decide)

/-! ## Two calls at once -/

structure Batch where
  toAdd : List (String × String)
  toRemoveIds : List String
  deriving DecidableEq, Repr

def Batch.touches (p : Batch) (x : String) : Prop := x ∈ p.toAdd.map Prod.fst ∨ x ∈ p.toRemoveIds

/-- Every request of the call succeeds. -/
def AllOk (r : Replies) : Prop := r.read.ok = true ∧ r.patch.ok = true ∧ r.post.ok = true

/-- The write half of one of two calls, from the content that its read has seen. -/
def exchange (b : PfSenseBouncer) (batch : ReadModifyWrite.Caller → Batch) (replies : ReadModifyWrite.Caller → Replies)
    (c : ReadModifyWrite.Caller) (content : List String) : List String :=
  b.replacement content (replies c).read (batch c).toAdd (batch c).toRemoveIds

/-- The old content with both batches applied to it. -/
def Merged (old : List String) (batch : ReadModifyWrite.Caller → Batch) (new : List String) : Prop :=
  ∀ x, x ∈ new ↔ (x ∈ old ∨ ∃ c, x ∈ (batch c).toAdd.map Prod.fst) ∧ ∀ c, x ∉ (batch c).toRemoveIds

section
open ReadModifyWrite
variable {batch : Caller → Batch} {replies : Caller → Replies}

/-- Undisturbed, the two halves are one `apply`. -/
theorem fst_apply_eq_exchange (hc : b.isConfigured = true) (c : Caller) (hok : AllOk (replies c)) :
    (b.apply content (batch c).toAdd (batch c).toRemoveIds (replies c)).1 = b.exchange batch replies c content := by
  obtain ⟨_,hpatch,_⟩ := hok
  have hl : (replies c).landed = true := by
    unfold Replies.landed
    cases hp : (replies c).patch with
    | raised e => simp [hp, Reply.ok] at hpatch
    | answered status text => simpa [hp, Reply.ok] using hpatch
  rw [fst_apply, if_pos ⟨hc,hl⟩]
  rfl

theorem mem_exchange (hc : b.isConfigured = true) {c : Caller} (hok : AllOk (replies c)) {x : String} :
    x ∈ b.exchange batch replies c content ↔
      (x ∈ content ∨ x ∈ (batch c).toAdd.map Prod.fst) ∧ x ∉ (batch c).toRemoveIds :=
  mem_replacement_of_ok hc hok.1

/-- With the other batch elsewhere, what one batch makes of an alias is the merge exactly when
the other has nothing left to do. -/
theorem merged_iff {old new : List String} {w : Caller} (hdisj : ∀ x, (batch w).touches x → ¬ (batch w.other).touches x)
    (hnew : Patched old (batch w.other).toAdd (batch w.other).toRemoveIds new) :
    Merged old batch new ↔ Patched old (batch w).toAdd (batch w).toRemoveIds old := by
  unfold Merged Patched Batch.touches at *
  simp only [hnew, w.exists_iff, w.forall_iff]
  constructor
  · intro h x
    have hx := h x
    have hd := hdisj x
    tauto
  · intro h x
    have hx := h x
    have hd := hdisj x
    tauto

theorem merged_of_serial {old mid new : List String} {c : Caller}
    (hdisj : ∀ x, (batch c).touches x → ¬ (batch c.other).touches x)
    (hmid : Patched old (batch c).toAdd (batch c).toRemoveIds mid)
    (hnew : Patched mid (batch c.other).toAdd (batch c.other).toRemoveIds new) : Merged old batch new := by
  unfold Merged Patched Batch.touches at *
  simp only [hnew, hmid, c.exists_iff, c.forall_iff]
  intro x
  have hd := hdisj x
  tauto

/-- Two calls with disjoint batches are merged when they run one after the other. When both
read first, the batch written first is lost, unless the alias holds it already. -/
theorem concurrent_applies_iff (hc : b.isConfigured = true) (hok : ∀ c, AllOk (replies c))
    (hdisj : ∀ x, (batch .first).touches x → ¬ (batch .second).touches x) {old : List String}
    {ts : List (Transition (State (List String)) Action)} {s : State (List String)}
    (h : Trace (Step (b.exchange batch replies)) (start old) ts s) (hf : s.Finished) :
    Merged old batch s.value ↔ (∃ c, actions ts = serial c) ∨
      ∃ r w, actions ts = overlapped r w ∧ Patched old (batch w).toAdd (batch w).toRemoveIds old := by
  have hdisj' : ∀ c x, (batch c).touches x → ¬ (batch c.other).touches x := by
    intro c x hx hy
    cases c with
    | first => exact hdisj x hx hy
    | second => exact hdisj x hy hx
  have hex : ∀ c content, Patched content (batch c).toAdd (batch c).toRemoveIds (b.exchange batch replies c content) :=
    fun c content x => mem_exchange hc (hok c)
  rcases finished_cases h hf with ⟨c,ha,hv⟩ | ⟨r,w,ha,hv⟩
  · rw [hv]
    have hm := merged_of_serial (hdisj' c) (hex c old) (hex c.other (b.exchange batch replies c old))
    exact ⟨fun _ => Or.inl ⟨c,ha⟩,fun _ => hm⟩
  · rw [hv, merged_iff (hdisj' w) (hex w.other old)]
    constructor
    · exact fun hp => Or.inr ⟨r,w,ha,hp⟩
    · rintro (⟨c,hs⟩ | ⟨r',w',ho,hp⟩)
      · -- no order is both
        rw [ha] at hs
        cases r <;> cases w <;> cases c <;> simp [serial, overlapped, Caller.other] at hs
      · rw [ha] at ho
        have hw : w = w' := by
          simp only [overlapped, List.cons.injEq, Action.write.injEq] at ho
          exact ho.2.2.1
        exact hw ▸ hp

def exampleBatch : Caller → Batch
  | .first => ⟨[("192.0.2.1","protek:lapi:ssh-bf:7")],[]⟩
  | .second => ⟨[("198.51.100.9","protek:lapi:http-probing:8")],["203.0.113.9"]⟩

def exampleReplies : Caller → Replies := fun _ => ⟨.answered 200 "",.answered 200 "",false,.answered 200 ""⟩

theorem exampleBatch_disjoint (x : String) (hx : (exampleBatch .first).touches x) : ¬ (exampleBatch .second).touches x := by
  simp only [Batch.touches, exampleBatch, List.map_cons, List.map_nil, List.mem_singleton, List.not_mem_nil, or_false] at hx ⊢
  rw [hx]
  decide

/-- Both calls read the alias before either writes it: the first one's ban is gone. -/
theorem concurrent_applies_lose_ban :
    ∃ ts s, Trace (Step (exampleBouncer.exchange exampleBatch exampleReplies)) (start ["203.0.113.9"]) ts s ∧
      s.Finished ∧ ¬ Merged ["203.0.113.9"] exampleBatch s.value := by
  obtain ⟨ts,s,h,hf,ha⟩ := exists_overlapped (exampleBouncer.exchange exampleBatch exampleReplies) ["203.0.113.9"] .first .first
  refine ⟨ts,s,h,hf,fun hm => ?_⟩
  rcases finished_cases h hf with ⟨c,hs,_⟩ | ⟨r,w,ho,hv⟩
  · rw [ha] at hs
    cases c <;> simp [serial, overlapped, Caller.other] at hs
  · rw [ha] at ho
    simp only [overlapped, List.cons.injEq, Action.write.injEq] at ho
    obtain ⟨_,_,rfl,_⟩ := ho
    have hin : "192.0.2.1" ∈ s.value := (hm "192.0.2.1").mpr ⟨Or.inr ⟨.first,by decide⟩,fun c => by cases c <;> decide⟩
    rw [hv] at hin
    exact absurd hin (by decide)

theorem concurrent_applies_iff_example :
    ∃ ts s, Trace (Step (exampleBouncer.exchange exampleBatch exampleReplies)) (start ["203.0.113.9"]) ts s ∧
      (Merged ["203.0.113.9"] exampleBatch s.value ↔ (∃ c, actions ts = serial c) ∨
        ∃ r w, actions ts = overlapped r w ∧
          Patched ["203.0.113.9"] (exampleBatch w).toAdd (exampleBatch w).toRemoveIds ["203.0.113.9"]) := by
  obtain ⟨ts,s,h,hf,_⟩ := exists_overlapped (exampleBouncer.exchange exampleBatch exampleReplies) ["203.0.113.9"] .first .first
  exact ⟨ts,s,h,concurrent_applies_iff (by decide) (fun _ => ⟨rfl,rfl,rfl⟩) exampleBatch_disjoint h hf⟩

end
end PfSenseBouncer
end Protek.Targets
