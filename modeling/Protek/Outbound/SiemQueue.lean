import Protek.Connection.Consumers
import Protek.Foundation.BoundedJournal
import Protek.Foundation.Clock
import Protek.Foundation.DropOldest
import Protek.Outbound.Syslog
import Protek.Outbound.Webhooks

/-! # The SIEM queue

Each event goes into the journal first and into the queue of its process afterwards; the
worker of the process hands the items to the forwarders and stamps their rows. The
processes share the journal, and each of these steps stands alone between the others'.
-/
namespace Protek.Outbound.Siem
open Foundation Foundation.Clock Foundation.DropOldest Protek.Connection

/-! ## Events -/

def SEV_ALERT : ℤ := 1
def SEV_ERR : ℤ := 3
def SEV_WARN : ℤ := 4
def SEV_NOTICE : ℤ := 5
def SEV_INFO : ℤ := 6

def EVENT_SEVERITY : List (String × ℤ) :=
  [("decision.created",SEV_NOTICE),("decision.deleted",SEV_INFO),("sync.error",SEV_ERR),("sync.threshold",SEV_WARN),
    ("auth.failure",SEV_WARN),("auth.success",SEV_INFO),("auth.locked",SEV_ALERT),("source.down",SEV_ERR),
    ("source.up",SEV_INFO),("mt.unreachable",SEV_ERR),("mt.recovered",SEV_INFO),("bouncer.error",SEV_ERR),
    ("settings.changed",SEV_NOTICE)]

structure Event where
  eventType : String
  severity : ℤ
  payload : Json.Value

/-- The arguments of `ship`. -/
structure ShipCall where
  eventType : String
  payload : Option Payload
  severity : Option ℤ

def ShipCall.event (c : ShipCall) : Event :=
  ⟨c.eventType,c.severity.getD ((EVENT_SEVERITY.lookup c.eventType).getD SEV_INFO),.obj (c.payload.getD [])⟩

/-- An entry of the queue; the id of the row is 0 where the journal could not be written. -/
structure Item where
  rowId : ℕ
  event : Event

/-! ## The journal -/

/-- A row of `siem_journal`, but for its id. -/
structure JournalRow where
  createdAt : String
  eventType : String
  severity : ℤ
  payloadJson : String
  shippedAt : Option String
  shipError : String

def JOURNAL_MAX : ℕ := 10000

def journalRow (e : Event) (now : Instant) : JournalRow :=
  ⟨isoformat now,e.eventType,e.severity,Json.dumps e.payload,none,""⟩

/-- The payload that `replay` reads from a row. -/
def readPayload (payloadJson : String) : Json.Value :=
  (Json.loads (if payloadJson = "" then "\x7b\x7d" else payloadJson)).getD (.obj [("raw",.str payloadJson)])

/-- The item that `replay` makes of a row; a severity of 0 counts as none. -/
def replayItem (r : ℕ × JournalRow) : Item :=
  ⟨r.1,r.2.eventType,if r.2.severity = 0 then SEV_INFO else r.2.severity,readPayload r.2.payloadJson⟩

/-! ## The forwarders -/

/-- The names of `_active_forwarders`. -/
def activeForwarders (env : Env) : List String :=
  (if envstr env "SYSLOG_HOST" "" = "" then [] else ["syslog"]) ++ (if envstr env "SIEM_WEBHOOK_URL" "" = "" then [] else ["webhook"])

/-- A worker's hand-over of an item: the forwarders, what each `send` raised, and whether the row could be stamped. -/
structure Attempt where
  item : Item
  forwarders : List String
  raised : String → Option String
  now : Instant
  stamped : Bool

def Attempt.errors (a : Attempt) : List String := a.forwarders.filterMap (fun fw => (a.raised fw).map (fun e => fw ++ ": " ++ e))

def Attempt.shipError (a : Attempt) : String := clip 300 ("; ".intercalate a.errors)

def JournalRow.ship (a : Attempt) (r : JournalRow) : JournalRow :=
  { r with shippedAt := some (isoformat a.now), shipError := a.shipError }

/-! ## Processes -/

def QUEUE_MAX : ℕ := 10000

/-- A process: its queue, the item its worker holds, and the calls that have been to the journal and not yet
to the queue. `log` is everything that came to the queue and `taken` what the worker took. -/
structure Proc where
  buffer : Buffer Item
  inFlight : Option Item
  calls : List (List Item)
  log : List Item
  taken : List Item

def Proc.fresh : Proc := ⟨Buffer.empty,none,[],[],[]⟩

/-- `events` holds what was journalled, the event of row `id` at `id - 1`. -/
structure World (P : Type) where
  journal : Journal JournalRow
  procs : P → Proc
  events : List Event
  attempts : List Attempt

inductive Action (P : Type)
  | restart (p : P)
  /-- The `INSERT` of `ship`, or its failure. -/
  | ship (p : P) (call : ShipCall) (now : Instant) (writes : Bool)
  /-- The `DELETE` of `ship`. -/
  | bound
  /-- The `SELECT` of `replay`. -/
  | replay (p : P) (n : ℕ)
  /-- The end of a call, under the lock of the queue. -/
  | enqueue (p : P) (call : ℕ)
  | take (p : P)
  | dispatch (p : P) (env : Env) (raised : String → Option String) (now : Instant) (stamps : Bool)

section
variable {P : Type} [DecidableEq P]

def World.fresh : World P := ⟨Journal.empty,fun _ => Proc.fresh,[],[]⟩

def World.setProc (w : World P) (p : P) (f : Proc → Proc) : World P :=
  { w with procs := Function.update w.procs p (f (w.procs p)) }

def Proc.call (items : List Item) (s : Proc) : Proc := { s with calls := s.calls ++ [items] }

def Proc.enqueue (i : ℕ) (s : Proc) : Proc :=
  let items := s.calls.getD i []
  { s with buffer := s.buffer.pushAll QUEUE_MAX items, calls := s.calls.eraseIdx i, log := s.log ++ items }

/-- The worker takes an item when it holds none. -/
def Proc.take (s : Proc) : Proc :=
  match s.inFlight, s.buffer.items with
  | none, a :: _ => { s with buffer := s.buffer.pop, inFlight := some a, taken := s.taken ++ [a] }
  | _, _ => s

def Proc.release (s : Proc) : Proc := { s with inFlight := none }

/-- `_dispatch` once the forwarders are known. -/
def World.attempt (w : World P) (a : Attempt) : World P :=
  if a.forwarders = [] then w
  else { w with
    attempts := w.attempts ++ [a]
    journal := if a.stamped ∧ a.item.rowId ≠ 0 then w.journal.update a.item.rowId (JournalRow.ship a) else w.journal }

def World.next (w : World P) : Action P → World P
  | .restart p => w.setProc p (fun _ => Proc.fresh)
  | .ship p call now true =>
    { w.setProc p (Proc.call [⟨w.journal.seq + 1,call.event⟩]) with
      journal := w.journal.insert (journalRow call.event now), events := w.events ++ [call.event] }
  | .ship p call _ false => w.setProc p (Proc.call [⟨0,call.event⟩])
  | .bound => { w with journal := w.journal.bound JOURNAL_MAX }
  | .replay p n => w.setProc p (Proc.call ((w.journal.last n).map replayItem))
  | .enqueue p i => w.setProc p (Proc.enqueue i)
  | .take p => w.setProc p Proc.take
  | .dispatch p env raised now stamps =>
    match (w.procs p).inFlight with
    | none => w
    | some item => (w.attempt ⟨item,activeForwarders env,raised,now,stamps⟩).setProc p Proc.release

def run (actions : List (Action P)) : World P := actions.foldl World.next World.fresh

theorem run_snoc (actions : List (Action P)) (a : Action P) : run (actions ++ [a]) = (run actions).next a :=
  List.foldl_append

end

/-! ## Whose row it is -/

/-- An event as `replay` reads it back. -/
def Event.asReplayed (e : Event) : Event :=
  ⟨e.eventType,if e.severity = 0 then SEV_INFO else e.severity,readPayload (Json.dumps e.payload)⟩

def JournalRow.Records (r : JournalRow) (e : Event) : Prop :=
  r.eventType = e.eventType ∧ r.severity = e.severity ∧ r.payloadJson = Json.dumps e.payload

/-- The item has no row, or carries the event of its row. -/
def Owns (events : List Event) (i : Item) : Prop :=
  i.rowId = 0 ∨ ∃ e, events[i.rowId - 1]? = some e ∧ (i.event = e ∨ i.event = e.asReplayed)

/-- The last hand-over that stamped a row. -/
def lastStamp (attempts : List Attempt) (id : ℕ) : Option Attempt :=
  attempts.reverse.find? (fun a => a.stamped && decide (a.item.rowId = id))

/-- What `shipped_at` and `ship_error` hold after a hand-over, or before any. -/
def stampOf : Option Attempt → Option String × String
  | none => (none,"")
  | some a => (some (isoformat a.now),a.shipError)

structure RowOk (events : List Event) (attempts : List Attempt) (r : ℕ × JournalRow) : Prop where
  records : ∃ e, events[r.1 - 1]? = some e ∧ r.2.Records e
  stamp : (r.2.shippedAt,r.2.shipError) = stampOf (lastStamp attempts r.1)

structure ProcOk (events : List Event) (s : Proc) : Prop where
  account : Account QUEUE_MAX s.log s.taken s.buffer
  inFlight : ∀ i, s.inFlight = some i → i ∈ s.log
  calls : ∀ items ∈ s.calls, ∀ i ∈ items, Owns events i
  log : ∀ i ∈ s.log, Owns events i

structure World.Sound {P : Type} (w : World P) : Prop where
  seq : w.journal.seq = w.events.length
  rows : ∀ r ∈ w.journal.rows, RowOk w.events w.attempts r
  attempts : ∀ a ∈ w.attempts, Owns w.events a.item ∧ a.forwarders ≠ []
  procs : ∀ p, ProcOk w.events (w.procs p)
  complete : w.journal.Complete JOURNAL_MAX

section
variable {events more : List Event} {attempts : List Attempt} {s : Proc} {i : Item}

theorem dumps_ne_empty {v : Json.Value} (h : v.Plain) : Json.dumps v ≠ "" := by
  intro he
  have hpos := Json.dumpsValue_pos h
  have hnil := congrArg String.toList he
  rw [Json.dumps, String.toList_ofList] at hnil
  rw [hnil] at hpos
  exact Nat.lt_irrefl 0 hpos

/-- Unless its severity is 0, an event comes back from the journal as it was. -/
theorem asReplayed_eq {e : Event} (hs : e.severity ≠ 0) (hp : e.payload.Plain) : e.asReplayed = e := by
  rw [Event.asReplayed, if_neg hs, readPayload, if_neg (dumps_ne_empty hp), Json.loads_dumps hp]
  rfl

theorem replayItem_event {r : ℕ × JournalRow} {e : Event} (h : r.2.Records e) : (replayItem r).event = e.asReplayed := by
  obtain ⟨htype,hsev,hpay⟩ := h
  rw [replayItem, Event.asReplayed, htype, hsev, hpay]

theorem getElem?_more {k : ℕ} {e : Event} (h : events[k]? = some e) : (events ++ more)[k]? = some e := by
  obtain ⟨hk,-⟩ := List.getElem?_eq_some_iff.mp h
  rw [List.getElem?_append_left hk, h]

theorem Owns.mono (h : Owns events i) : Owns (events ++ more) i := by
  rcases h with h | ⟨e,he,hi⟩
  · exact Or.inl h
  · exact Or.inr ⟨e,getElem?_more he,hi⟩

theorem Owns.rowId_le (h : Owns events i) : i.rowId ≤ events.length := by
  rcases h with h | ⟨e,he,-⟩
  · rw [h]
    exact Nat.zero_le _
  · obtain ⟨hk,-⟩ := List.getElem?_eq_some_iff.mp he
    omega

theorem ProcOk.mono (h : ProcOk events s) : ProcOk (events ++ more) s where
  account := h.account
  inFlight := h.inFlight
  calls := fun items hitems i hi => (h.calls items hitems i hi).mono
  log := fun i hi => (h.log i hi).mono

theorem procOk_fresh : ProcOk events Proc.fresh where
  account := Account.empty
  inFlight := fun _ h => nomatch h
  calls := fun _ h => nomatch h
  log := fun _ h => nomatch h

theorem ProcOk.call (h : ProcOk events s) {items : List Item} (hitems : ∀ i ∈ items, Owns events i) :
    ProcOk events (s.call items) where
  account := h.account
  inFlight := h.inFlight
  calls := by
    intro l hl
    rcases List.mem_append.mp hl with hl | hl
    · exact h.calls l hl
    · rw [List.mem_singleton.mp hl]
      exact hitems
  log := h.log

theorem ProcOk.getD (h : ProcOk events s) (k : ℕ) : ∀ i ∈ s.calls.getD k [], Owns events i := by
  intro i hi
  rw [List.getD_eq_getElem?_getD] at hi
  cases hk : s.calls[k]? with
  | none =>
    rw [hk] at hi
    exact absurd hi List.not_mem_nil
  | some items =>
    rw [hk] at hi
    exact h.calls items (List.mem_of_getElem? hk) i hi

theorem ProcOk.enqueue (h : ProcOk events s) (k : ℕ) : ProcOk events (s.enqueue k) where
  account := h.account.pushAll (by decide) _
  inFlight := fun i hi => List.mem_append_left _ (h.inFlight i hi)
  calls := fun items hitems => h.calls items (List.mem_of_mem_eraseIdx hitems)
  log := by
    intro i hi
    rcases List.mem_append.mp hi with hi | hi
    · exact h.log i hi
    · exact h.getD k i hi

theorem ProcOk.take (h : ProcOk events s) : ProcOk events s.take := by
  unfold Proc.take
  split
  · rename_i a rest hflight hitems
    refine ⟨h.account.pop hitems,?_,h.calls,h.log⟩
    intro i hi
    obtain rfl := Option.some_inj.mp hi
    exact h.account.suffix.subset (hitems ▸ List.mem_cons_self)
  · exact h

theorem ProcOk.release (h : ProcOk events s) : ProcOk events s.release :=
  ⟨h.account,(fun _ hi => nomatch hi),h.calls,h.log⟩

/-! ## What a step keeps -/

theorem lastStamp_snoc (a : Attempt) (id : ℕ) :
    lastStamp (attempts ++ [a]) id = if a.stamped = true ∧ a.item.rowId = id then some a else lastStamp attempts id := by
  rw [lastStamp, List.reverse_append, List.reverse_singleton, List.singleton_append, List.find?_cons]
  by_cases h : a.stamped = true ∧ a.item.rowId = id
  · rw [if_pos h, h.1, decide_eq_true h.2]
    rfl
  · rw [if_neg h]
    split
    · rename_i hmatch
      rw [Bool.and_eq_true, decide_eq_true_eq] at hmatch
      exact absurd hmatch h
    · rfl

theorem lastStamp_none {id : ℕ} (h : ∀ a ∈ attempts, a.item.rowId ≠ id) : lastStamp attempts id = none := by
  refine List.find?_eq_none.mpr (fun a ha => ?_)
  rw [Bool.and_eq_true, decide_eq_true_eq]
  exact fun hm => h a (List.mem_reverse.mp ha) hm.2

theorem lastStamp_some {id : ℕ} {a : Attempt} (h : lastStamp attempts id = some a) :
    a ∈ attempts ∧ a.stamped = true ∧ a.item.rowId = id := by
  have hm := List.find?_some h
  rw [Bool.and_eq_true, decide_eq_true_eq] at hm
  exact ⟨List.mem_reverse.mp (List.mem_of_find?_eq_some h),hm⟩

end

section
variable {P : Type} {w : World P}

theorem sound_fresh : (World.fresh : World P).Sound where
  seq := rfl
  rows := fun _ h => nomatch h
  attempts := fun _ h => nomatch h
  procs := fun _ => procOk_fresh
  complete := Journal.complete_empty

theorem World.Sound.replayed (h : w.Sound) (n : ℕ) : ∀ i ∈ (w.journal.last n).map replayItem, Owns w.events i := by
  intro i hi
  obtain ⟨r,hr,rfl⟩ := List.mem_map.mp hi
  obtain ⟨e,he,hrec⟩ := (h.rows r (Journal.mem_of_mem_last hr)).records
  exact Or.inr ⟨e,he,Or.inr (replayItem_event hrec)⟩

/-- A hand-over stamps the row of its item and no other. -/
theorem World.Sound.attempt (h : w.Sound) {a : Attempt} (ha : Owns w.events a.item) : (w.attempt a).Sound := by
  unfold World.attempt
  split_ifs with hno hstamp
  · exact h
  · refine ⟨h.seq,?_,?_,h.procs,h.complete.update _ _⟩
    · intro r hr
      obtain ⟨q,hq,rfl⟩ := Journal.mem_update.mp hr
      obtain ⟨e,he,hrec⟩ := (h.rows q hq).records
      split_ifs with hid
      · refine ⟨⟨e,he,hrec⟩,?_⟩
        rw [lastStamp_snoc, if_pos ⟨hstamp.1,hid.symm⟩]
        rfl
      · refine ⟨⟨e,he,hrec⟩,?_⟩
        rw [lastStamp_snoc, if_neg (fun hm => hid hm.2.symm)]
        exact (h.rows q hq).stamp
    · intro b hb
      rcases List.mem_append.mp hb with hb | hb
      · exact h.attempts b hb
      · rw [List.mem_singleton.mp hb]
        exact ⟨ha,hno⟩
  · refine ⟨h.seq,?_,?_,h.procs,h.complete⟩
    · intro r hr
      refine ⟨(h.rows r hr).records,?_⟩
      have hpos := (w.journal.id_range r hr).1
      rw [lastStamp_snoc, if_neg (fun hm => hstamp ⟨hm.1,fun hz => by omega⟩)]
      exact (h.rows r hr).stamp
    · intro b hb
      rcases List.mem_append.mp hb with hb | hb
      · exact h.attempts b hb
      · rw [List.mem_singleton.mp hb]
        exact ⟨ha,hno⟩

variable [DecidableEq P]

theorem World.Sound.setProc (h : w.Sound) (p : P) {f : Proc → Proc} (hf : ProcOk w.events (w.procs p) → ProcOk w.events (f (w.procs p))) :
    (w.setProc p f).Sound where
  seq := h.seq
  rows := h.rows
  attempts := h.attempts
  procs := by
    intro q
    rw [World.setProc]
    dsimp only
    by_cases hq : q = p
    · rw [hq, Function.update_self]
      exact hf (h.procs p)
    · rw [Function.update_of_ne hq]
      exact h.procs q
  complete := h.complete

/-- The `INSERT`: its row is new to every attempt, and its item carries its event. -/
theorem World.Sound.ship (h : w.Sound) (p : P) (call : ShipCall) (now : Instant) : (w.next (.ship p call now true)).Sound := by
  have hnew : (w.events ++ [call.event])[w.journal.seq + 1 - 1]? = some call.event := by
    rw [Nat.add_sub_cancel, h.seq, List.getElem?_append_right le_rfl, Nat.sub_self]
    rfl
  refine ⟨?_,?_,fun a ha => ⟨(h.attempts a ha).1.mono,(h.attempts a ha).2⟩,?_,h.complete.insert _⟩
  · change w.journal.seq + 1 = (w.events ++ [call.event]).length
    rw [List.length_append, h.seq, List.length_singleton]
  · intro r hr
    rcases Journal.mem_insert.mp hr with hr | rfl
    · obtain ⟨e,he,hrec⟩ := (h.rows r hr).records
      exact ⟨⟨e,getElem?_more he,hrec⟩,(h.rows r hr).stamp⟩
    · refine ⟨⟨call.event,hnew,rfl,rfl,rfl⟩,?_⟩
      have hnone : lastStamp w.attempts (w.journal.seq + 1) = none := by
        refine lastStamp_none (fun a ha he => ?_)
        have := (h.attempts a ha).1.rowId_le
        rw [he, h.seq] at this
        exact Nat.not_succ_le_self _ this
      change _ = stampOf (lastStamp w.attempts (w.journal.seq + 1))
      rw [hnone]
      rfl
  · intro q
    change ProcOk (w.events ++ [call.event]) (Function.update w.procs p ((w.procs p).call [⟨w.journal.seq + 1,call.event⟩]) q)
    by_cases hq : q = p
    · rw [hq, Function.update_self]
      refine (h.procs p).mono.call (fun i hi => ?_)
      rw [List.mem_singleton.mp hi]
      exact Or.inr ⟨call.event,hnew,Or.inl rfl⟩
    · rw [Function.update_of_ne hq]
      exact (h.procs q).mono

theorem World.Sound.bound (h : w.Sound) : (w.next .bound).Sound where
  seq := h.seq
  rows := fun r hr => h.rows r (Journal.mem_bound.mp hr).1
  attempts := h.attempts
  procs := h.procs
  complete := h.complete.bound

theorem World.Sound.next (h : w.Sound) (a : Action P) : (w.next a).Sound := by
  cases a with
  | restart p => exact h.setProc p (f := fun _ => Proc.fresh) (fun _ => procOk_fresh)
  | ship p call now writes =>
    cases writes with
    | true => exact h.ship p call now
    | false =>
      refine h.setProc p (fun hp => hp.call (fun i hi => ?_))
      rw [List.mem_singleton.mp hi]
      exact Or.inl rfl
  | bound => exact h.bound
  | replay p n => exact h.setProc p (fun hp => hp.call (h.replayed n))
  | enqueue p i => exact h.setProc p (fun hp => hp.enqueue i)
  | take p => exact h.setProc p ProcOk.take
  | dispatch p env raised now stamps =>
    rw [World.next]
    split
    · exact h
    · rename_i item hitem
      have hown : Owns w.events item := (h.procs p).log item ((h.procs p).inFlight item hitem)
      exact (h.attempt hown).setProc p ProcOk.release

theorem sound_run (actions : List (Action P)) : (run actions : World P).Sound := by
  induction actions using List.reverseRecOn with
  | nil => exact sound_fresh
  | append_singleton actions a ih =>
    rw [run_snoc]
    exact ih.next a

/-! ## Runs -/

/-- The queue stays within its bound, it is the end of what came to it, and the worker has had the rest in
order, but for as many items as the drops count. -/
theorem siem_queue_accounts (actions : List (Action P)) (p : P) :
    let s := (run actions).procs p
    s.buffer.items.length ≤ QUEUE_MAX ∧
      (∃ gone, s.log = gone ++ s.buffer.items ∧ s.taken.Sublist gone ∧ gone.length = s.taken.length + s.buffer.dropped) ∧
      (s.buffer.dropped = 0 → s.log = s.taken ++ s.buffer.items) := by
  have h := ((sound_run actions).procs p).account
  exact ⟨h.bounded,h.split,h.lossless⟩

/-- What waits in a queue or is being handed over carries the event of its row, and a row's stamp is that
of the last hand-over of its own event that could write it. -/
theorem siem_stamps_own_rows (actions : List (Action P)) :
    let w := run actions
    (∀ p i, i ∈ (w.procs p).buffer.items ∨ (w.procs p).inFlight = some i → Owns w.events i) ∧
      ∀ r ∈ w.journal.rows, (∃ e, w.events[r.1 - 1]? = some e ∧ r.2.Records e) ∧
        (r.2.shippedAt,r.2.shipError) = stampOf (lastStamp w.attempts r.1) ∧
        ∀ a, lastStamp w.attempts r.1 = some a → a.item.rowId = r.1 ∧ Owns w.events a.item ∧ a.forwarders ≠ [] := by
  have h := sound_run actions
  refine ⟨?_,?_⟩
  · intro p i hi
    have hp := h.procs p
    rcases hi with hi | hi
    · exact hp.log i (hp.account.suffix.subset hi)
    · exact hp.log i (hp.inFlight i hi)
  · intro r hr
    refine ⟨(h.rows r hr).records,(h.rows r hr).stamp,?_⟩
    intro a ha
    obtain ⟨hmem,-,hid⟩ := lastStamp_some ha
    exact ⟨hid,h.attempts a hmem⟩

/-- The number that the route passes on. -/
def apiSiemReplay (n : ℤ) : ℕ := (max 1 (min 10000 n)).toNat

/-- A replay leaves the newest events at the end of the queue, oldest first, each as it was unless its
severity is 0; after the bound the journal holds the newest 10001 events and nothing else. -/
theorem siem_replay_newest (actions : List (Action P)) (p : P) (n : ℤ) :
    let w := run actions
    let m := min (apiSiemReplay n) w.events.length
    (∃ l, l <:+ (((w.next (.replay p (apiSiemReplay n))).next (.enqueue p (w.procs p).calls.length)).procs p).buffer.items ∧
      l.map Item.rowId = List.range' (w.events.length - m + 1) m ∧
      ∀ i ∈ l, ∃ e, w.events[i.rowId - 1]? = some e ∧ i.event = e.asReplayed ∧
        (e.severity ≠ 0 → e.payload.Plain → i.event = e)) ∧
    (w.next .bound).journal.ids = List.range' (w.events.length - min 10001 w.events.length + 1) (min 10001 w.events.length) := by
  intro w m
  have h : w.Sound := sound_run actions
  have hn : apiSiemReplay n ≤ QUEUE_MAX := by
    rw [apiSiemReplay, QUEUE_MAX]
    omega
  refine ⟨⟨(w.journal.last (apiSiemReplay n)).map replayItem,?_,?_,?_⟩,?_⟩
  · have hproc : ((w.next (.replay p (apiSiemReplay n))).next (.enqueue p (w.procs p).calls.length)).procs p =
        ((w.procs p).call ((w.journal.last (apiSiemReplay n)).map replayItem)).enqueue (w.procs p).calls.length := by
      simp only [World.next, World.setProc, Function.update_self]
    have hcall : ((w.procs p).calls ++ [(w.journal.last (apiSiemReplay n)).map replayItem]).getD (w.procs p).calls.length [] =
        (w.journal.last (apiSiemReplay n)).map replayItem := by
      rw [List.getD_eq_getElem?_getD, List.getElem?_append_right le_rfl, Nat.sub_self]
      rfl
    have hlen : ((w.journal.last (apiSiemReplay n)).map replayItem).length ≤ QUEUE_MAX := by
      rw [List.length_map, Journal.last, List.length_reverse, List.length_take]
      exact (Nat.min_le_left _ _).trans hn
    rw [hproc, Proc.enqueue, Proc.call]
    dsimp only
    rw [hcall]
    exact Buffer.suffix_pushAll (by decide) (h.procs p).account.bounded hlen
  · rw [List.map_map]
    change (w.journal.last (apiSiemReplay n)).map Prod.fst = _
    rw [h.complete.map_last (hn.trans (Nat.le_succ _)), h.seq]
  · intro i hi
    obtain ⟨r,hr,rfl⟩ := List.mem_map.mp hi
    obtain ⟨e,he,hrec⟩ := (h.rows r (Journal.mem_of_mem_last hr)).records
    have hevent := replayItem_event hrec
    exact ⟨e,he,hevent,fun hs hp => hevent.trans (asReplayed_eq hs hp)⟩
  · change (w.journal.bound JOURNAL_MAX).ids = _
    rw [h.complete.ids_bound, h.seq]
    rfl

end
end Protek.Outbound.Siem
