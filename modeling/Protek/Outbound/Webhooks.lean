import Mathlib.Data.List.Sort
import Protek.Foundation.Clock
import Protek.Foundation.Fnmatch
import Protek.Foundation.KeyedTable
import Protek.Foundation.PyText

/-! # Outbound webhooks

The worker hands an event to one subscriber after the other, and what raises on the way
ends the event for all that are still to come.
-/
namespace Protek.Outbound
open Foundation Foundation.PyText Foundation.Clock

/-! ## Tables -/

/-- A row of `webhook_subs`. -/
structure SubRow where
  id : ℕ
  url : String
  hmacSecret : String
  eventMask : String
  enabled : Bool
  lastOkAt : Option String
  lastError : String
  consecFailures : ℕ
  deriving DecidableEq

structure DlqRow where
  id : ℕ
  subId : ℕ
  eventType : String
  payloadJson : String
  lastError : String
  attempts : ℕ
  firstSeenAt : String
  lastAttemptAt : String
  deriving DecidableEq

/-- The rows of `webhook_dlq`, and the last id given out. -/
structure Dlq where
  rows : List DlqRow
  seq : ℕ
  id_le : ∀ r ∈ rows, r.id ≤ seq

def Dlq.remove (d : Dlq) (p : DlqRow → Bool) : Dlq :=
  ⟨d.rows.filter (fun r => !p r),d.seq,fun r hr => d.id_le r (List.mem_of_mem_filter hr)⟩

def Dlq.insert (d : Dlq) (fresh : DlqRow) : Dlq where
  rows := d.rows ++ [{ fresh with id := d.seq + 1 }]
  seq := d.seq + 1
  id_le := by
    intro r hr
    rcases List.mem_append.mp hr with hr | hr
    · exact (d.id_le r hr).trans (Nat.le_succ _)
    · rw [List.mem_singleton.mp hr]

/-- `DELETE … WHERE id < (SELECT MAX(id) FROM webhook_dlq) - 1000` -/
def Dlq.prune (d : Dlq) : Dlq := d.remove (fun r => d.rows.any (fun q => r.id + 1000 < q.id))

structure World where
  subs : KeyedTable ℕ SubRow SubRow.id
  dlq : Dlq
  /-- The subscribers whose receiver has answered with a success. -/
  delivered : List ℕ

/-- `delete_sub`, for each of these. -/
def World.deleteSubs (w : World) (ids : List ℕ) : World :=
  { w with subs := w.subs.remove (fun r => r.id ∈ ids), dlq := w.dlq.remove (fun r => r.subId ∈ ids) }

def World.deliver (w : World) (subId : ℕ) : World := { w with delivered := w.delivered ++ [subId] }

/-! ## Sending -/

def clip (n : ℕ) (s : String) : String := String.ofList (s.toList.take n)

/-- What becomes of one attempt. -/
inductive Post
  | bucketExhausted
  | response (status : ℕ) (text : String)
  | requestException (text : String)
  | raises
  deriving DecidableEq

/-- `_send_once`, `none` where it raises. -/
def sendOnce : Post → Option (Bool × String)
  | .bucketExhausted => some (false,"backpressure — webhook bucket exhausted")
  | .response status text =>
    if status = 429 then some (false,"HTTP 429: rate limited")
    else if 200 ≤ status ∧ status < 300 then some (true,"")
    else some (false,"HTTP " ++ toString status ++ ": " ++ clip 200 text)
  | .requestException text => some (false,"network: " ++ text)
  | .raises => none

inductive Attempts
  | raised
  | accepted
  | exhausted (lastErr : String)
  deriving DecidableEq

def backoff : List ℕ := [2,4,8]

/-- An attempt for each of the waits, up to the first that is accepted. -/
def tryAll (posts : ℕ → Post) : ℕ → List ℕ → String → Attempts
  | _, [], lastErr => .exhausted lastErr
  | i, _ :: waits, _ =>
    match sendOnce (posts i) with
    | none => .raised
    | some (true,_) => .accepted
    | some (false,err) => tryAll posts (i + 1) waits err

/-- The calls of the database while one subscriber is handled; `write` is the first after the attempts. -/
inductive Moment
  | fetch
  | write
  | prune
  | mark
  deriving DecidableEq

/-- What happens while one subscriber is handled: `deleted` holds the subscribers that an operator
deletes before a call, and `raises` says which calls fail. -/
structure Handling where
  posts : ℕ → Post
  deleted : Moment → List ℕ
  raises : Moment → Bool
  clock : Moment → Instant

def Handling.attempts (h : Handling) : Attempts := tryAll h.posts 0 backoff ""

/-- A call of the database. -/
def Handling.call (h : Handling) (m : Moment) (f : World → World) (w : World) : Except World World :=
  if h.raises m then .error (w.deleteSubs (h.deleted m)) else .ok (f (w.deleteSubs (h.deleted m)))

/-- `UPDATE webhook_subs SET … WHERE id = ?` -/
def World.updateSub (w : World) (subId : ℕ) (f : SubRow → SubRow) (hf : ∀ r, (f r).id = r.id) : World :=
  { w with subs := w.subs.modify (fun r => if r.id = subId then f r else r) (by
      intro r
      by_cases h : r.id = subId
      · simp [h, hf]
      · simp [h]) }

def markOk (subId : ℕ) (now : Instant) (w : World) : World :=
  w.updateSub subId (fun r => { r with lastOkAt := some (isoformat now), lastError := "", consecFailures := 0 }) (fun _ => rfl)

def markFail (subId : ℕ) (err : String) (w : World) : World :=
  w.updateSub subId (fun r => { r with lastError := clip 300 err, consecFailures := r.consecFailures + 1 }) (fun _ => rfl)

/-- An event from the queue, with `json.dumps(payload, default=str)`. -/
structure QueuedEvent where
  eventType : String
  payloadJson : String

/-- The values of an `INSERT`, but for the id. -/
def dlqEntry (subId : ℕ) (event : QueuedEvent) (err : String) (now : Instant) : DlqRow :=
  { id := 0
    subId := subId
    eventType := event.eventType
    payloadJson := event.payloadJson
    lastError := clip 300 err
    attempts := backoff.length
    firstSeenAt := isoformat now
    lastAttemptAt := isoformat now }

def insertDlq (subId : ℕ) (event : QueuedEvent) (err : String) (now : Instant) (w : World) : World :=
  { w with dlq := w.dlq.insert (dlqEntry subId event err now) }

def pruneDlq (w : World) : World := { w with dlq := w.dlq.prune }

/-- `_push_dlq` and `_mark_fail` -/
def deadLetter (h : Handling) (subId : ℕ) (event : QueuedEvent) (err : String) (w : World) : Except World World :=
  (h.call .write (insertDlq subId event err (h.clock .write)) w).bind
    (fun w => (h.call .prune pruneDlq w).bind (h.call .mark (markFail subId err)))

/-- `_deliver_one`; what raises leaves the state it has come to. -/
def deliverOne (h : Handling) (subId : ℕ) (event : QueuedEvent) (w : World) : Except World World :=
  (h.call .fetch (fun w => w) w).bind (fun w =>
    match w.subs.find subId with
    | none => .ok w
    | some _ =>
      match h.attempts with
      | .raised => .error w
      | .accepted => h.call .write (markOk subId (h.clock .write)) (w.deliver subId)
      | .exhausted err => deadLetter h subId event err w)

/-! ## An event -/

def matchesMask (eventMask eventType : String) : Bool :=
  if eventMask = "" ∨ eventMask = "*" then true
  else (((split eventMask ',').map strip).filter (· ≠ "")).any (Fnmatch.fnmatchcase eventType)

/-- The enabled subscribers that match, the newest first. -/
def matching (w : World) (eventType : String) : List ℕ :=
  ((w.subs.rows.filter (fun r => r.enabled && matchesMask r.eventMask eventType)).map SubRow.id).insertionSort (fun a b => b ≤ a)

section
variable (env : ℕ → Handling) (event : QueuedEvent)

def deliverEach : List ℕ → World → Except World World
  | [], w => .ok w
  | subId :: rest, w => (deliverOne (env subId) subId event w).bind (deliverEach rest)

/-- What is left, whether it raised or not. -/
def outcome : Except World World → World
  | .ok w => w
  | .error w => w

/-- One round of `_worker_loop`. -/
def workerTurn (w : World) : World := outcome (deliverEach env event (matching w event.eventType) w)

end

/-! ## What becomes of a subscriber -/

/-- What a handling comes to; `pruned` says that its own row was there when the dead letters were cut. -/
structure Fate where
  delivered : Bool := false
  pushed : Bool := false
  pruned : Bool := false
  raised : Bool := false
  deriving DecidableEq

/-- The fate that a handling holds for a subscriber of a world. -/
def Handling.fate (h : Handling) (subId : ℕ) (w : World) : Fate :=
  if h.raises .fetch then { raised := true }
  else match (w.deleteSubs (h.deleted .fetch)).subs.find subId with
    | none => {}
    | some _ =>
      match h.attempts with
      | .raised => { raised := true }
      | .accepted => { delivered := true, raised := h.raises .write }
      | .exhausted _ =>
        if h.raises .write then { raised := true }
        else { pushed := true, pruned := !h.raises .prune && subId ∉ h.deleted .prune, raised := h.raises .prune || h.raises .mark }

/-- The fates of the subscribers up to the first whose handling raises. -/
def fates (env : ℕ → Handling) (event : QueuedEvent) : List ℕ → World → List Fate
  | [], _ => []
  | subId :: rest, w => (env subId).fate subId w ::
    match deliverOne (env subId) subId event w with
    | .ok w' => fates env event rest w'
    | .error _ => []

/-- A dead letter with so many rows above it outlasts these fates: no row that is there when the
dead letters are cut is the 1001st above it. -/
def outlasts : ℕ → List Fate → Bool
  | _, [] => true
  | newer, f :: later => (f.pruned = false ∨ newer + 1 ≤ 1000) && outlasts (newer + f.pushed.toNat) later

/-- The ways through a handling, each with the world it leaves. -/
inductive Handled (h : Handling) (subId : ℕ) (event : QueuedEvent) (w : World) : World → Fate → Prop
  | fetchRaised : Handled h subId event w (w.deleteSubs (h.deleted .fetch)) { raised := true }
  | gone (hgone : (w.deleteSubs (h.deleted .fetch)).subs.find subId = none) :
    Handled h subId event w (w.deleteSubs (h.deleted .fetch)) {}
  | postRaised : Handled h subId event w (w.deleteSubs (h.deleted .fetch)) { raised := true }
  | okUnmarked : Handled h subId event w (((w.deleteSubs (h.deleted .fetch)).deliver subId).deleteSubs (h.deleted .write))
      { delivered := true, raised := true }
  | okMarked : Handled h subId event w
      (markOk subId (h.clock .write) (((w.deleteSubs (h.deleted .fetch)).deliver subId).deleteSubs (h.deleted .write)))
      { delivered := true }
  | unpushed : Handled h subId event w ((w.deleteSubs (h.deleted .fetch)).deleteSubs (h.deleted .write)) { raised := true }
  | unpruned (err : String) : Handled h subId event w ((insertDlq subId event err (h.clock .write)
      ((w.deleteSubs (h.deleted .fetch)).deleteSubs (h.deleted .write))).deleteSubs (h.deleted .prune))
      { pushed := true, raised := true }
  | failUnmarked (err : String) : Handled h subId event w ((pruneDlq ((insertDlq subId event err (h.clock .write)
      ((w.deleteSubs (h.deleted .fetch)).deleteSubs (h.deleted .write))).deleteSubs (h.deleted .prune))).deleteSubs (h.deleted .mark))
      { pushed := true, pruned := subId ∉ h.deleted .prune, raised := true }
  | failMarked (err : String) : Handled h subId event w (markFail subId err ((pruneDlq ((insertDlq subId event err (h.clock .write)
      ((w.deleteSubs (h.deleted .fetch)).deleteSubs (h.deleted .write))).deleteSubs (h.deleted .prune))).deleteSubs (h.deleted .mark)))
      { pushed := true, pruned := subId ∉ h.deleted .prune }

theorem call_eq (h : Handling) (m : Moment) (f : World → World) (w : World) :
    h.call m f w = if h.raises m then .error (w.deleteSubs (h.deleted m)) else .ok (f (w.deleteSubs (h.deleted m))) := rfl

/-- A handling goes one of these ways, and raises where its fate says so. -/
theorem deliverOne_handled (h : Handling) (subId : ℕ) (event : QueuedEvent) (w : World) :
    ∃ w', Handled h subId event w w' (h.fate subId w) ∧
      deliverOne h subId event w = if (h.fate subId w).raised then .error w' else .ok w' := by
  rw [deliverOne, Handling.fate, call_eq]
  cases h.raises .fetch with
  | true => exact ⟨_,.fetchRaised,rfl⟩
  | false =>
    cases hfind : (w.deleteSubs (h.deleted .fetch)).subs.find subId with
    | none => exact ⟨_,.gone hfind,by simp [Except.bind, hfind]⟩
    | some row =>
      simp only [Except.bind, Bool.false_eq_true, if_false, hfind]
      cases h.attempts with
      | raised => exact ⟨_,.postRaised,rfl⟩
      | accepted =>
        dsimp only
        rw [call_eq]
        cases h.raises .write with
        | true => exact ⟨_,.okUnmarked,rfl⟩
        | false => exact ⟨_,.okMarked,rfl⟩
      | exhausted err =>
        dsimp only
        rw [deadLetter, call_eq]
        cases h.raises .write with
        | true => exact ⟨_,.unpushed,rfl⟩
        | false =>
          simp only [Except.bind, Bool.false_eq_true, if_false, call_eq]
          cases h.raises .prune with
          | true => exact ⟨_,.unpruned err,rfl⟩
          | false =>
            cases h.raises .mark with
            | true => exact ⟨_,.failUnmarked err,rfl⟩
            | false => exact ⟨_,.failMarked err,rfl⟩

/-! ## One subscriber among the others -/

def World.Alive (w : World) (s : ℕ) : Prop := w.subs.find s ≠ none

/-- The dead letters of a subscriber with ids after `start`. -/
def World.letters (w : World) (s start : ℕ) : List DlqRow := w.dlq.rows.filter (fun r => r.subId = s ∧ start < r.id)

def World.Below (w : World) (top : ℕ) : Prop := ∀ r ∈ w.dlq.rows, r.id ≤ top

section
variable {s subId start top : ℕ} {w : World} {ids : List ℕ} {event : QueuedEvent} {err : String} {now : Instant} {r : DlqRow}

@[simp] theorem alive_deleteSubs : (w.deleteSubs ids).Alive s ↔ w.Alive s ∧ s ∉ ids := by
  unfold World.Alive World.deleteSubs
  dsimp only
  rw [KeyedTable.find_remove]
  cases hfind : w.subs.find s with
  | none => simp
  | some row => simp [Option.filter, (KeyedTable.find_eq_some.mp hfind).2]

@[simp] theorem alive_updateSub {f : SubRow → SubRow} {hf : ∀ r, (f r).id = r.id} : (w.updateSub subId f hf).Alive s ↔ w.Alive s := by
  unfold World.Alive World.updateSub
  dsimp only
  rw [KeyedTable.find_modify, ne_eq, Option.map_eq_none_iff]

@[simp] theorem alive_deliver : (w.deliver subId).Alive s ↔ w.Alive s := Iff.rfl

@[simp] theorem alive_insertDlq : (insertDlq subId event err now w).Alive s ↔ w.Alive s := Iff.rfl

@[simp] theorem alive_pruneDlq : (pruneDlq w).Alive s ↔ w.Alive s := Iff.rfl

theorem letters_deleteSubs (h : s ∉ ids) : (w.deleteSubs ids).letters s start = w.letters s start := by
  change (w.dlq.rows.filter _).filter _ = _
  rw [List.filter_filter, World.letters]
  refine List.filter_congr (fun r _ => ?_)
  by_cases hr : r.subId = s
  · simp [hr, h]
  · simp [hr]

@[simp] theorem letters_updateSub {f : SubRow → SubRow} {hf : ∀ r, (f r).id = r.id} :
    (w.updateSub subId f hf).letters s start = w.letters s start := rfl

@[simp] theorem letters_deliver : (w.deliver subId).letters s start = w.letters s start := rfl

theorem letters_insertDlq_of_ne (h : subId ≠ s) : (insertDlq subId event err now w).letters s start = w.letters s start := by
  change (w.dlq.rows ++ [_]).filter _ = _
  rw [List.filter_append, List.filter_cons_of_neg (by simp [dlqEntry, h]), List.filter_nil, List.append_nil, World.letters]

theorem letters_insertDlq_self (h : start ≤ w.dlq.seq) : (insertDlq s event err now w).letters s start =
    w.letters s start ++ [{ dlqEntry s event err now with id := w.dlq.seq + 1 }] := by
  change (w.dlq.rows ++ [_]).filter _ = _
  rw [List.filter_append, List.filter_cons_of_pos (by simp [dlqEntry, Nat.lt_succ_of_le h]), List.filter_nil, World.letters]

theorem letters_pruneDlq : (pruneDlq w).letters s start =
    (w.letters s start).filter (fun r => w.dlq.rows.all (fun q => q.id ≤ r.id + 1000)) := by
  change (w.dlq.rows.filter _).filter _ = (w.dlq.rows.filter _).filter _
  rw [List.filter_filter, List.filter_filter]
  refine List.filter_congr (fun r _ => ?_)
  rw [Bool.and_comm, List.not_any_eq_all_not]
  simp only [← decide_not, not_lt]

theorem letters_pruneDlq_of_below (hr : w.letters s start = [r]) (h : w.Below (r.id + 1000)) : (pruneDlq w).letters s start = [r] := by
  rw [letters_pruneDlq, hr, List.filter_cons_of_pos, List.filter_nil]
  exact List.all_eq_true.mpr (fun q hq => decide_eq_true (h q hq))

theorem letters_pruneDlq_of_above {q : DlqRow} (hr : w.letters s start = [r]) (hq : q ∈ w.dlq.rows) (h : r.id + 1000 < q.id) :
    (pruneDlq w).letters s start = [] := by
  rw [letters_pruneDlq, hr, List.filter_cons_of_neg, List.filter_nil]
  intro hall
  exact absurd h (not_lt.mpr (of_decide_eq_true (List.all_eq_true.mp hall q hq)))

theorem World.Below.delete (h : w.Below top) : (w.deleteSubs ids).Below top := fun r hr => h r (List.mem_of_mem_filter hr)

theorem World.Below.cut (h : w.Below top) : (pruneDlq w).Below top := fun r hr => h r (List.mem_of_mem_filter hr)

theorem World.Below.insert (h : w.Below top) (hseq : w.dlq.seq + 1 ≤ top) : (insertDlq subId event err now w).Below top := by
  intro r hr
  rcases List.mem_append.mp hr with hr | hr
  · exact h r hr
  · rw [List.mem_singleton.mp hr]
    exact hseq

/-- A row whose subscriber is deleted at once leaves no trace. -/
theorem World.Below.insert_delete (h : w.Below top) (hids : subId ∈ ids) :
    ((insertDlq subId event err now w).deleteSubs ids).Below top := by
  intro r hr
  obtain ⟨hr,hkept⟩ := List.mem_filter.mp hr
  rcases List.mem_append.mp hr with hr | hr
  · exact h r hr
  · rw [List.mem_singleton.mp hr] at hkept
    simp [dlqEntry, hids] at hkept

theorem mem_insertDlq_deleteSubs (hids : subId ∉ ids) :
    { dlqEntry subId event err now with id := w.dlq.seq + 1 } ∈ ((insertDlq subId event err now w).deleteSubs ids).dlq.rows :=
  List.mem_filter.mpr ⟨List.mem_append_right _ List.mem_cons_self,by simp [dlqEntry, hids]⟩

/-- A handling of another subscriber delivers nothing to this one. -/
theorem delivered_of_ne {h : Handling} {w' : World} {f : Fate} (hne : subId ≠ s) (hw : Handled h subId event w w' f) :
    w'.delivered.count s = w.delivered.count s := by
  have happ : (w.delivered ++ [subId]).count s = w.delivered.count s := by
    rw [List.count_append, List.count_singleton, if_neg (by simpa using hne), Nat.add_zero]
  cases hw with
  | okUnmarked | okMarked => exact happ
  | _ => rfl

theorem seq_of_handled {h : Handling} {w' : World} {f : Fate} (hw : Handled h subId event w w' f) :
    w'.dlq.seq = w.dlq.seq + f.pushed.toNat := by
  cases hw <;> rfl

theorem alive_of_handled {h : Handling} {w' : World} {f : Fate} (hw : Handled h subId event w w' f) (halive : w'.Alive s) : w.Alive s := by
  cases hw <;> simp [markOk, markFail] at halive <;> tauto

/-- Without a dead letter of its own a subscriber gets none from the handling of another. -/
theorem letters_nil_of_ne {h : Handling} {w' : World} {f : Fate} (hne : subId ≠ s) (hw : Handled h subId event w w' f)
    (halive : w'.Alive s) (hnil : w.letters s start = []) : w'.letters s start = [] := by
  cases hw <;> simp [markOk, markFail] at halive <;>
    simp [markOk, markFail, letters_deleteSubs, letters_insertDlq_of_ne hne, letters_pruneDlq, halive, hnil]

/-- A dead letter stays as long as no row that is cut with stands more than 1000 ids above it. -/
theorem push_keeps (hne : subId ≠ s) (hs : s ∉ ids) (hr : w.letters s start = [r]) (hbelow : w.Below (r.id + 1000))
    (hkeep : subId ∈ ids ∨ w.dlq.seq + 1 ≤ r.id + 1000) :
    (pruneDlq ((insertDlq subId event err now w).deleteSubs ids)).letters s start = [r] ∧
      (pruneDlq ((insertDlq subId event err now w).deleteSubs ids)).Below (r.id + 1000) := by
  have hnext : ((insertDlq subId event err now w).deleteSubs ids).Below (r.id + 1000) := by
    rcases hkeep with hids | hseq
    · exact hbelow.insert_delete hids
    · exact (hbelow.insert hseq).delete
  have hletters : ((insertDlq subId event err now w).deleteSubs ids).letters s start = [r] := by
    rw [letters_deleteSubs hs, letters_insertDlq_of_ne hne, hr]
  exact ⟨letters_pruneDlq_of_below hletters hnext,hnext.cut⟩

theorem push_drops (hne : subId ≠ s) (hs : s ∉ ids) (hr : w.letters s start = [r]) (hids : subId ∉ ids)
    (habove : r.id + 1000 < w.dlq.seq + 1) :
    (pruneDlq ((insertDlq subId event err now w).deleteSubs ids)).letters s start = [] := by
  have hletters : ((insertDlq subId event err now w).deleteSubs ids).letters s start = [r] := by
    rw [letters_deleteSubs hs, letters_insertDlq_of_ne hne, hr]
  exact letters_pruneDlq_of_above hletters (mem_insertDlq_deleteSubs hids) habove

theorem letters_of_ne {h : Handling} {w' : World} {f : Fate} (hne : subId ≠ s) (hw : Handled h subId event w w' f)
    (halive : w'.Alive s) (hr : w.letters s start = [r]) (hbelow : w.Below (r.id + 1000)) :
    if f.pruned = false ∨ w.dlq.seq + 1 ≤ r.id + 1000 then
      w'.letters s start = [r] ∧ (f.raised = false → w'.Below (r.id + 1000))
    else w'.letters s start = [] := by
  cases hw with
  | fetchRaised | gone | postRaised =>
    rw [if_pos (Or.inl rfl), letters_deleteSubs (alive_deleteSubs.mp halive).2]
    exact ⟨hr,fun _ => hbelow.delete⟩
  | okUnmarked | okMarked | unpushed =>
    simp only [markOk, alive_updateSub, alive_deleteSubs, alive_deliver] at halive
    rw [if_pos (Or.inl rfl)]
    simp only [markOk, letters_updateSub, letters_deleteSubs halive.2, letters_deliver, letters_deleteSubs halive.1.2]
    exact ⟨hr,fun _ => hbelow.delete.delete⟩
  | unpruned err =>
    simp only [alive_deleteSubs, alive_insertDlq] at halive
    rw [if_pos (Or.inl rfl), letters_deleteSubs halive.2, letters_insertDlq_of_ne hne, letters_deleteSubs halive.1.2,
      letters_deleteSubs halive.1.1.2]
    exact ⟨hr,fun h => nomatch h⟩
  | failUnmarked err | failMarked err =>
    simp only [markFail, alive_updateSub, alive_deleteSubs, alive_insertDlq, alive_pruneDlq] at halive
    have hbase : ((w.deleteSubs (h.deleted .fetch)).deleteSubs (h.deleted .write)).letters s start = [r] := by
      rw [letters_deleteSubs halive.1.1.2, letters_deleteSubs halive.1.1.1.2, hr]
    simp only [markFail, letters_updateSub, letters_deleteSubs halive.2]
    split_ifs with hkeep
    · have hids : subId ∈ h.deleted .prune ∨ w.dlq.seq + 1 ≤ r.id + 1000 := hkeep.imp (by simp) id
      obtain ⟨hletters,hnext⟩ := push_keeps hne halive.1.2 hbase hbelow.delete.delete hids
      exact ⟨hletters,fun _ => hnext.delete⟩
    · obtain ⟨hids,habove⟩ := not_or.mp hkeep
      exact push_drops hne halive.1.2 hbase (by simpa using hids) (not_le.mp habove)

/-- The subscriber's own handling delivers the event or stores it on top of the dead letters. -/
theorem own_handled {h : Handling} {w' : World} {f : Fate} (hw : Handled h s event w w' f) (halive : w'.Alive s)
    (hraised : f.raised = false) (hnil : w.letters s start = []) (hstart : start ≤ w.dlq.seq) :
    (f.pushed = false ∧ w'.delivered.count s = w.delivered.count s + 1 ∧ w'.letters s start = []) ∨
      (f.pushed = true ∧ w'.delivered.count s = w.delivered.count s ∧
        ∃ r, w'.letters s start = [r] ∧ r.id = w'.dlq.seq ∧ w'.Below (r.id + 1000)) := by
  cases hw with
  | fetchRaised | postRaised | okUnmarked | unpushed | unpruned | failUnmarked => cases hraised
  | gone hgone => exact absurd hgone halive
  | okMarked =>
    simp only [markOk, alive_updateSub, alive_deleteSubs, alive_deliver] at halive
    refine Or.inl ⟨rfl,?_,?_⟩
    · change (w.delivered ++ [s]).count s = _
      rw [List.count_append, List.count_singleton_self]
    · rw [markOk, letters_updateSub, letters_deleteSubs halive.2, letters_deliver, letters_deleteSubs halive.1.2, hnil]
  | failMarked err =>
    simp only [markFail, alive_updateSub, alive_deleteSubs, alive_insertDlq, alive_pruneDlq] at halive
    refine Or.inr ⟨rfl,rfl,{ dlqEntry s event err (h.clock .write) with id := w.dlq.seq + 1 },?_,rfl,?_⟩
    · rw [markFail, letters_updateSub, letters_deleteSubs halive.2]
      apply letters_pruneDlq_of_below
      · have hseq : start ≤ ((w.deleteSubs (h.deleted .fetch)).deleteSubs (h.deleted .write)).dlq.seq := hstart
        rw [letters_deleteSubs halive.1.2, letters_insertDlq_self hseq, letters_deleteSubs halive.1.1.2,
          letters_deleteSubs halive.1.1.1.2, hnil]
        rfl
      · exact fun r hr => (Dlq.id_le _ r hr).trans (Nat.le_add_right _ 1000)
    · exact fun r hr => (Dlq.id_le _ r hr).trans (Nat.le_add_right _ 1000)

end

/-! ## An event and all its subscribers -/

section
variable {env : ℕ → Handling} {event : QueuedEvent} {s start : ℕ}

theorem deliverEach_cons (env : ℕ → Handling) (event : QueuedEvent) (subId : ℕ) (rest : List ℕ) (w : World) :
    ∃ w' f, Handled (env subId) subId event w w' f ∧
      deliverEach env event (subId :: rest) w = (if f.raised then .error w' else deliverEach env event rest w') ∧
      fates env event (subId :: rest) w = f :: if f.raised then [] else fates env event rest w' := by
  obtain ⟨w',hw,hrun⟩ := deliverOne_handled (env subId) subId event w
  refine ⟨w',_,hw,?_,?_⟩
  · rw [deliverEach, hrun]
    split <;> rfl
  · rw [fates, hrun]
    cases ((env subId).fate subId w).raised <;> rfl

theorem alive_of_deliverEach {subs : List ℕ} {w : World} (h : (outcome (deliverEach env event subs w)).Alive s) : w.Alive s := by
  induction subs generalizing w with
  | nil => exact h
  | cons subId rest ih =>
    obtain ⟨w',f,hw,hrun,-⟩ := deliverEach_cons env event subId rest w
    rw [hrun] at h
    split at h
    · exact alive_of_handled hw h
    · exact alive_of_handled hw (ih h)

/-- The handling of others neither delivers the event nor stores it for this subscriber. -/
theorem rest_nil {subs : List ℕ} {w : World} (hs : s ∉ subs) (h : (outcome (deliverEach env event subs w)).Alive s)
    (hnil : w.letters s start = []) : (outcome (deliverEach env event subs w)).letters s start = [] := by
  induction subs generalizing w with
  | nil => exact hnil
  | cons subId rest ih =>
    obtain ⟨hne,hs⟩ := List.ne_and_not_mem_of_not_mem_cons hs
    obtain ⟨w',f,hw,hrun,-⟩ := deliverEach_cons env event subId rest w
    rw [hrun] at h ⊢
    cases hraised : f.raised with
    | true =>
      rw [hraised] at h
      exact letters_nil_of_ne hne.symm hw h hnil
    | false =>
      rw [hraised] at h
      exact ih hs h (letters_nil_of_ne hne.symm hw (alive_of_deliverEach h) hnil)

theorem rest_delivered {subs : List ℕ} {w : World} (hs : s ∉ subs) :
    (outcome (deliverEach env event subs w)).delivered.count s = w.delivered.count s := by
  induction subs generalizing w with
  | nil => rfl
  | cons subId rest ih =>
    obtain ⟨hne,hs⟩ := List.ne_and_not_mem_of_not_mem_cons hs
    obtain ⟨w',f,hw,hrun,-⟩ := deliverEach_cons env event subId rest w
    rw [hrun]
    split
    · exact delivered_of_ne hne.symm hw
    · exact (ih hs).trans (delivered_of_ne hne.symm hw)

theorem rest_letters {subs : List ℕ} {w : World} {r : DlqRow} {newer : ℕ} (hs : s ∉ subs)
    (h : (outcome (deliverEach env event subs w)).Alive s) (hr : w.letters s start = [r]) (hbelow : w.Below (r.id + 1000))
    (hnewer : r.id + newer = w.dlq.seq) :
    (outcome (deliverEach env event subs w)).letters s start = if outlasts newer (fates env event subs w) then [r] else [] := by
  induction subs generalizing w newer with
  | nil => exact hr
  | cons subId rest ih =>
    obtain ⟨hne,hs⟩ := List.ne_and_not_mem_of_not_mem_cons hs
    obtain ⟨w',f,hw,hrun,hfates⟩ := deliverEach_cons env event subId rest w
    have hseq := seq_of_handled hw
    rw [hrun] at h ⊢
    have halive : w'.Alive s := by
      split at h
      · exact h
      · exact alive_of_deliverEach h
    have hone := letters_of_ne hne.symm hw halive hr hbelow
    rw [hfates, outlasts]
    by_cases hkeep : f.pruned = false ∨ newer + 1 ≤ 1000
    · rw [if_pos (hkeep.imp_right (fun hle => by omega))] at hone
      rw [decide_eq_true hkeep, Bool.true_and]
      cases hraised : f.raised with
      | true => exact hone.1
      | false =>
        rw [hraised] at h
        exact ih hs h hone.1 (hone.2 hraised) (by rw [hseq, ← hnewer, Nat.add_assoc])
    · rw [if_neg (fun hle => hkeep (hle.imp_right (fun hle => by omega)))] at hone
      rw [decide_eq_false hkeep, Bool.false_and]
      cases hraised : f.raised with
      | true => exact hone
      | false =>
        rw [hraised] at h
        exact rest_nil hs h hone

/-- The event is delivered once to a subscriber, or stored once for it. -/
def EndsOnce (s start delivered : ℕ) (w : World) : Prop :=
  (w.delivered.count s = delivered + 1 ∧ w.letters s start = []) ∨ (w.delivered.count s = delivered ∧ (w.letters s start).length = 1)

/-- No handling before the place `n` raises, and what is stored there outlasts the handlings after it. -/
def Undisturbed (n : ℕ) (fs : List Fate) : Prop :=
  (∀ f ∈ fs.take n, f.raised = false) ∧ ∀ f, fs[n]? = some f → f.pushed = true → outlasts 0 (fs.drop (n + 1)) = true

theorem undisturbed_cons {n : ℕ} {f : Fate} {fs : List Fate} (h : f.raised = false) :
    Undisturbed (n + 1) (f :: fs) ↔ Undisturbed n fs := by
  rw [Undisturbed, List.take_succ_cons, List.forall_mem_cons, and_iff_right h]
  rfl

theorem endsOnce_own {rest : List ℕ} {w w' : World} {f : Fate} (hs : s ∉ rest) (hw : Handled (env s) s event w w' f)
    (h : (outcome (deliverEach env event rest w')).Alive s) (hraised : f.raised = false) (hnil : w.letters s start = [])
    (hstart : start ≤ w.dlq.seq) :
    EndsOnce s start (w.delivered.count s) (outcome (deliverEach env event rest w')) ↔
      Undisturbed 0 (f :: fates env event rest w') := by
  rcases own_handled hw (alive_of_deliverEach h) hraised hnil hstart with ⟨hpushed,hcount,hletters⟩ | ⟨hpushed,hcount,r,hr,hseq,hbelow⟩
  · refine iff_of_true (Or.inl ⟨(rest_delivered hs).trans hcount,rest_nil hs h hletters⟩) ⟨by simp,fun f' hf' hpushed' => ?_⟩
    rw [← Option.some_inj.mp hf', hpushed] at hpushed'
    cases hpushed'
  · have hdelivered := (@rest_delivered env event s rest w' hs).trans hcount
    have hletters : _ = if outlasts 0 (fates env event rest w') then [r] else [] := rest_letters hs h hr hbelow hseq
    cases hout : outlasts 0 (fates env event rest w') with
    | true =>
      rw [hout] at hletters
      exact iff_of_true (Or.inr ⟨hdelivered,congrArg List.length hletters⟩) ⟨by simp,fun _ _ _ => hout⟩
    | false =>
      rw [hout] at hletters
      refine iff_of_false ?_ (fun hun => ?_)
      · rintro (⟨hmore,-⟩ | ⟨-,hlength⟩)
        · exact absurd (hdelivered.symm.trans hmore) (Nat.succ_ne_self _).symm
        · rw [hletters] at hlength
          cases hlength
      · exact Bool.false_ne_true (hout.symm.trans (hun.2 f rfl hpushed))

theorem endsOnce_iff {front back : List ℕ} {w : World} (hfront : s ∉ front) (hback : s ∉ back)
    (h : (outcome (deliverEach env event (front ++ s :: back) w)).Alive s) (hnil : w.letters s start = []) (hstart : start ≤ w.dlq.seq)
    (hown : ∀ f, (fates env event (front ++ s :: back) w)[front.length]? = some f → f.raised = false) :
    EndsOnce s start (w.delivered.count s) (outcome (deliverEach env event (front ++ s :: back) w)) ↔
      Undisturbed front.length (fates env event (front ++ s :: back) w) := by
  induction front generalizing w with
  | nil =>
    obtain ⟨w',f,hw,hrun,hfates⟩ := deliverEach_cons env event s back w
    rw [List.nil_append] at h hown ⊢
    rw [hfates] at hown ⊢
    rw [hrun] at h ⊢
    have hraised := hown f rfl
    rw [hraised] at h ⊢
    exact endsOnce_own hback hw h hraised hnil hstart
  | cons subId front ih =>
    obtain ⟨hne,hfront⟩ := List.ne_and_not_mem_of_not_mem_cons hfront
    obtain ⟨w',f,hw,hrun,hfates⟩ := deliverEach_cons env event subId (front ++ s :: back) w
    rw [List.cons_append] at h hown ⊢
    rw [hfates] at hown ⊢
    rw [hrun] at h ⊢
    have hcount := delivered_of_ne hne.symm hw
    cases hraised : f.raised with
    | true =>
      rw [hraised] at h
      have hletters := letters_nil_of_ne hne.symm hw h hnil
      refine iff_of_false ?_ (fun hun => ?_)
      · rintro (⟨hdelivered,-⟩ | ⟨-,hlength⟩)
        · exact absurd (hcount.symm.trans hdelivered) (Nat.succ_ne_self _).symm
        · change (w'.letters s start).length = 1 at hlength
          rw [hletters] at hlength
          cases hlength
      · have hfirst := hun.1 f List.mem_cons_self
        rw [hraised] at hfirst
        cases hfirst
    | false =>
      rw [hraised] at h hown
      rw [List.length_cons, undisturbed_cons hraised, ← hcount]
      refine ih hfront h (letters_nil_of_ne hne.symm hw (alive_of_deliverEach h) hnil) ?_ hown
      rw [seq_of_handled hw]
      exact hstart.trans (Nat.le_add_right _ _)

theorem nodup_matching (w : World) (eventType : String) : (matching w eventType).Nodup := by
  refine (List.perm_insertionSort _ _).nodup_iff.mpr ?_
  exact w.subs.nodup.sublist (List.filter_sublist.map SubRow.id)

/-- A subscriber that still exists and whose own handling raises nothing ends with the event delivered
once or stored once exactly when no earlier handling raises and no later ones push its dead letter out. -/
theorem subscriber_ends_once_iff {w : World} {n : ℕ} (hs : (matching w event.eventType)[n]? = some s)
    (halive : (workerTurn env event w).Alive s)
    (hown : ∀ f, (fates env event (matching w event.eventType) w)[n]? = some f → f.raised = false) :
    EndsOnce s w.dlq.seq (w.delivered.count s) (workerTurn env event w) ↔
      Undisturbed n (fates env event (matching w event.eventType) w) := by
  obtain ⟨hlt,hget⟩ := List.getElem?_eq_some_iff.mp hs
  have hsplit : matching w event.eventType = (matching w event.eventType).take n ++ s :: (matching w event.eventType).drop (n + 1) := by
    rw [← hget, ← List.drop_eq_getElem_cons hlt, List.take_append_drop]
  have hlength : ((matching w event.eventType).take n).length = n := by rw [List.length_take, Nat.min_eq_left hlt.le]
  have hnodup := nodup_matching w event.eventType
  rw [hsplit, List.nodup_append, List.nodup_cons] at hnodup
  have hnil : w.letters s w.dlq.seq = [] := by
    refine List.filter_eq_nil_iff.mpr (fun r hr hmine => ?_)
    exact absurd (of_decide_eq_true hmine).2 (not_lt.mpr (w.dlq.id_le r hr))
  have hiff := endsOnce_iff (fun hmem => hnodup.2.2 s hmem s List.mem_cons_self rfl) hnodup.2.1.1 (by rw [← hsplit]; exact halive) hnil le_rfl
    (by rwa [← hsplit, hlength])
  rwa [← hsplit, hlength] at hiff

end

/-! ## A status that cannot be written -/

def twoSubs : World where
  subs := ⟨[⟨1,"https://a.example/","k","*",true,none,"",0⟩,⟨2,"https://b.example/","k","*",true,none,"",0⟩],by decide⟩
  dlq := ⟨[],0,by simp⟩
  delivered := []

/-- Both receivers accept, and the write of the second one's status raises if `locked` is set. -/
def bothAccept (locked : Bool) (subId : ℕ) : Handling where
  posts := fun _ => .response 200 ""
  deleted := fun _ => []
  raises := fun m => locked && subId = 2 && m = .write
  clock := fun _ => 0

theorem subscriber_ends_once_iff_example :
    EndsOnce 1 0 0 (workerTurn (bothAccept false) ⟨"decision.created","{}"⟩ twoSubs) ↔
      Undisturbed 1 (fates (bothAccept false) ⟨"decision.created","{}"⟩ (matching twoSubs "decision.created") twoSubs) := by
  refine subscriber_ends_once_iff (n := 1) (by decide) (by unfold World.Alive; decide +kernel) (fun f hf => ?_)
  have hfates : (fates (bothAccept false) ⟨"decision.created","{}"⟩ (matching twoSubs "decision.created") twoSubs)[1]? =
    some { delivered := true } := by decide +kernel
  rw [← Option.some_inj.mp (hfates.symm.trans hf)]

/-- The receiver of the first subscriber has the event, its status cannot be written, and the
second one, which would accept, gets nothing. -/
theorem locked_status_starves_the_next :
    (matching twoSubs "decision.created")[1]? = some 1 ∧
    (workerTurn (bothAccept true) ⟨"decision.created","{}"⟩ twoSubs).Alive 1 ∧
    (fates (bothAccept true) ⟨"decision.created","{}"⟩ (matching twoSubs "decision.created") twoSubs)[1]? = none ∧
    ¬ EndsOnce 1 0 0 (workerTurn (bothAccept true) ⟨"decision.created","{}"⟩ twoSubs) := by
  unfold World.Alive EndsOnce
  decide +kernel

end Protek.Outbound
