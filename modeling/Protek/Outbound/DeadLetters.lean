import Mathlib.Data.Finset.Card
import Mathlib.Data.Finset.Max
import Mathlib.Order.Interval.Finset.Nat
import Protek.Foundation.Trace
import Protek.Outbound.Webhooks

/-! # Dead letters and their replays

The worker pushes letters and cuts the table, while the web workers replay them and delete subscribers. A replay reads its
letter, posts it, and writes what came of it; in between anything may happen.
-/
namespace Protek.Outbound.Replay
open Foundation Foundation.PyText Foundation.Clock Protek.Outbound

/-- What a replay has read. -/
structure Reading where
  letter : DlqRow
  url : String
  secret : String
  deriving DecidableEq

inductive Replaying
  | read (r : Reading)
  | sent (r : Reading) (ok : Bool) (err : String)
  deriving DecidableEq

def Replaying.letter : Replaying → DlqRow
  | .read r => r.letter
  | .sent r _ _ => r.letter

/-- One `_send_once` of a replay, and whether its receiver has answered with a success. -/
structure Posted where
  letter : ℕ
  subId : ℕ
  url : String
  eventType : String
  payloadJson : String
  accepted : Bool
  deriving DecidableEq

/-- The replays under way by request. The letters pushed, the posts, and the letters that a replay has written a failure of, are kept
as they come. -/
structure World where
  subs : KeyedTable ℕ SubRow SubRow.id
  subSeq : ℕ
  dlq : Dlq
  replays : ℕ → Option Replaying
  pushed : List DlqRow
  posts : List Posted
  failures : List ℕ

/-- `UPDATE webhook_dlq SET … WHERE id = ?` -/
def Dlq.update (d : Dlq) (id : ℕ) (f : DlqRow → DlqRow) (hf : ∀ r, (f r).id = r.id) : Dlq where
  rows := d.rows.map (fun r => if r.id = id then f r else r)
  seq := d.seq
  id_le := by
    intro r hr
    obtain ⟨q,hq,rfl⟩ := List.mem_map.mp hr
    have hle := d.id_le q hq
    split
    · rw [hf]
      exact hle
    · exact hle

section
variable (w : World)

/-- How `replay_dlq` begins; `loads` is what `json.loads` says against a payload. -/
def lookFor (loads : String → Option String) (eid : ℕ) : Except String Reading :=
  match w.dlq.rows.find? (fun r => r.id = eid) with
  | none => .error "not found"
  | some row =>
    match w.subs.find row.subId with
    | none => .error "subscriber gone — DLQ orphaned, cannot replay"
    | some sub =>
      if sub.url = "" then .error "subscriber gone — DLQ orphaned, cannot replay"
      else match loads row.payloadJson with
        | some e => .error ("corrupted DLQ payload: " ++ e)
        | none => .ok ⟨row,sub.url,sub.hmacSecret⟩

def World.putReplay (rid : ℕ) (x : Option Replaying) : World := { w with replays := Function.update w.replays rid x }

def World.read (loads : String → Option String) (rid eid : ℕ) : World :=
  match lookFor w loads eid with
  | .error _ => w
  | .ok r => w.putReplay rid (some (.read r))

/-- The post of a replay; where it raises the replay ends. -/
def World.send (rid : ℕ) (r : Reading) (post : Post) : World :=
  match sendOnce post with
  | none => w.putReplay rid none
  | some (ok,err) =>
    { w.putReplay rid (some (.sent r ok err)) with
      posts := w.posts ++ [⟨r.letter.id,r.letter.subId,r.url,r.letter.eventType,r.letter.payloadJson,ok⟩] }

def failedAgain (now : Instant) (err : String) (r : DlqRow) : DlqRow :=
  { r with attempts := r.attempts + 1, lastAttemptAt := isoformat now, lastError := clip 300 err }

/-- The last statement of a replay. -/
def World.write (rid : ℕ) (r : Reading) (ok : Bool) (err : String) (now : Instant) : World :=
  let w := w.putReplay rid none
  if ok then { w with dlq := w.dlq.remove (fun q => q.id = r.letter.id) }
  else { w with dlq := Dlq.update w.dlq r.letter.id (failedAgain now err) (fun _ => rfl), failures := w.failures ++ [r.letter.id] }

/-- The INSERT of `_push_dlq` -/
def World.push (subId : ℕ) (event : QueuedEvent) (err : String) (now : Instant) : World :=
  { w with
    dlq := w.dlq.insert (dlqEntry subId event err now)
    pushed := w.pushed ++ [{ dlqEntry subId event err now with id := w.dlq.seq + 1 }] }

def World.addSub (sub : SubRow) : World :=
  { w with subs := w.subs.upsert { sub with id := w.subSeq + 1 } id (fun _ => rfl), subSeq := w.subSeq + 1 }

end

inductive Event
  | push (subId : ℕ) (event : QueuedEvent) (err : String) (now : Instant)
  | prune
  | addSub (sub : SubRow)
  | touchSubs
  | dropSub (subId : ℕ)
  | dropLetters (subId : ℕ)
  | read (rid eid : ℕ)
  | send (rid : ℕ) (post : Post)
  | write (rid : ℕ) (now : Instant)
  | abandon (rid : ℕ)

/-- `delete_sub` is two statements; `touchSubs` is what else is written to a subscriber; a replay is abandoned where its last
statement raises or its process dies. -/
inductive Step (loads : String → Option String) : World → Event → World → Prop
  | push {w : World} {subId : ℕ} {event : QueuedEvent} {err : String} {now : Instant} (h : subId ≤ w.subSeq) :
      Step loads w (.push subId event err now) (w.push subId event err now)
  | prune {w : World} : Step loads w .prune { w with dlq := w.dlq.prune }
  | addSub {w : World} {sub : SubRow} : Step loads w (.addSub sub) (w.addSub sub)
  | touchSubs {w : World} {f : SubRow → SubRow} (hf : ∀ r, (f r).id = r.id) :
      Step loads w .touchSubs { w with subs := w.subs.modify f hf }
  | dropSub {w : World} {subId : ℕ} : Step loads w (.dropSub subId) { w with subs := w.subs.remove (fun r => r.id = subId) }
  | dropLetters {w : World} {subId : ℕ} (h : w.subs.find subId = none) :
      Step loads w (.dropLetters subId) { w with dlq := w.dlq.remove (fun r => r.subId = subId) }
  | read {w : World} {rid eid : ℕ} (h : w.replays rid = none) : Step loads w (.read rid eid) (w.read loads rid eid)
  | send {w : World} {rid : ℕ} {r : Reading} {post : Post} (h : w.replays rid = some (.read r)) :
      Step loads w (.send rid post) (w.send rid r post)
  | write {w : World} {rid : ℕ} {r : Reading} {ok : Bool} {err : String} {now : Instant}
      (h : w.replays rid = some (.sent r ok err)) : Step loads w (.write rid now) (w.write rid r ok err now)
  | abandon {w : World} {rid : ℕ} : Step loads w (.abandon rid) (w.putReplay rid none)

abbrev Move := Transition World Event

/-! ## What is kept -/

/-- The same letter, whatever has been written beside it. -/
structure SameLetter (p r : DlqRow) : Prop where
  id : p.id = r.id
  subId : p.subId = r.subId
  eventType : p.eventType = r.eventType
  payloadJson : p.payloadJson = r.payloadJson
  firstSeenAt : p.firstSeenAt = r.firstSeenAt

/-- A letter is in the table, or a receiver has it, or its subscriber is gone, or it has been cut off by the 1001st after it. -/
def Accounted (w : World) (p : DlqRow) : Prop :=
  (∃ r ∈ w.dlq.rows, r.id = p.id) ∨ (∃ s ∈ w.posts, s.letter = p.id ∧ s.accepted = true) ∨ w.subs.find p.subId = none ∨
    ∃ q ∈ w.pushed, p.id + 1000 < q.id

structure Inv (w : World) : Prop where
  nodup : (w.dlq.rows.map DlqRow.id).Nodup
  ids : (w.pushed.map DlqRow.id).Nodup
  bound : ∀ p ∈ w.pushed, p.id ≤ w.dlq.seq ∧ p.subId ≤ w.subSeq
  origin : ∀ r ∈ w.dlq.rows, ∃ p ∈ w.pushed, SameLetter p r
  attempts : ∀ r ∈ w.dlq.rows, r.attempts = backoff.length + w.failures.count r.id
  early : ∀ i ∈ w.failures, i ≤ w.dlq.seq
  flight : ∀ rid x, w.replays rid = some x → ∃ p ∈ w.pushed, SameLetter p x.letter
  landed : ∀ rid r err, w.replays rid = some (.sent r true err) → ∃ s ∈ w.posts, s.letter = r.letter.id ∧ s.accepted = true
  posted : ∀ s ∈ w.posts, ∃ p ∈ w.pushed, p.id = s.letter ∧ p.subId = s.subId ∧ p.eventType = s.eventType ∧ p.payloadJson = s.payloadJson
  subs : ∀ r ∈ w.subs.rows, r.id ≤ w.subSeq
  accounted : ∀ p ∈ w.pushed, Accounted w p

section
variable {loads : String → Option String} {w v : World}

theorem replays_putReplay (w : World) (rid : ℕ) (x : Option Replaying) (q : ℕ) :
    (w.putReplay rid x).replays q = if q = rid then x else w.replays q := Function.update_apply _ _ _ _

theorem Inv.putReplay (hi : Inv w) (rid : ℕ) {x : Option Replaying} (hx : ∀ y, x = some y → ∃ p ∈ w.pushed, SameLetter p y.letter)
    (hl : ∀ r err, x = some (.sent r true err) → ∃ s ∈ w.posts, s.letter = r.letter.id ∧ s.accepted = true) : Inv (w.putReplay rid x) := by
  refine ⟨hi.nodup,hi.ids,hi.bound,hi.origin,hi.attempts,hi.early,fun q y hq => ?_,fun q r err hq => ?_,hi.posted,hi.subs,hi.accounted⟩
  · rw [replays_putReplay] at hq
    split at hq
    · exact hx y hq
    · exact hi.flight q y hq
  · rw [replays_putReplay] at hq
    split at hq
    · exact hl r err hq
    · exact hi.landed q r err hq

/-- Rows go from the table, all of them accounted for otherwise. -/
theorem Inv.remove (hi : Inv w) {gone : DlqRow → Bool}
    (h : ∀ r ∈ w.dlq.rows, gone r = true → ∀ p ∈ w.pushed, SameLetter p r → (∃ s ∈ w.posts, s.letter = p.id ∧ s.accepted = true) ∨
      w.subs.find p.subId = none ∨ ∃ q ∈ w.pushed, p.id + 1000 < q.id) : Inv { w with dlq := w.dlq.remove gone } := by
  have hmem : ∀ r ∈ (w.dlq.remove gone).rows, r ∈ w.dlq.rows := fun r hr => List.mem_of_mem_filter hr
  refine ⟨(List.filter_sublist.map _).nodup hi.nodup,hi.ids,hi.bound,fun r hr => hi.origin r (hmem r hr),fun r hr => hi.attempts r (hmem r hr),
    hi.early,hi.flight,hi.landed,hi.posted,hi.subs,fun p hp => ?_⟩
  rcases hi.accounted p hp with ⟨r,hr,hid⟩ | hrest
  · cases hg : gone r with
    | false => exact Or.inl ⟨r,List.mem_filter.mpr ⟨hr,by simp [hg]⟩,hid⟩
    | true =>
      obtain ⟨p',hp',hsame⟩ := hi.origin r hr
      obtain rfl := List.inj_on_of_nodup_map hi.ids hp hp' (hid.symm.trans hsame.id.symm)
      exact Or.inr (h r hr hg p hp hsame)
  · exact Or.inr hrest

theorem Inv.prune (hi : Inv w) : Inv { w with dlq := w.dlq.prune } := by
  refine hi.remove (fun r hr hgone p hp hsame => Or.inr (Or.inr ?_))
  obtain ⟨q,hq,hlt⟩ := List.any_eq_true.mp hgone
  obtain ⟨p',hp',hsame'⟩ := hi.origin q hq
  exact ⟨p',hp',by rw [hsame.id, hsame'.id]; exact of_decide_eq_true hlt⟩

/-- Subscribers change, and none comes back. -/
theorem Inv.subscribers (hi : Inv w) {subs : KeyedTable ℕ SubRow SubRow.id} {seq : ℕ} (hseq : w.subSeq ≤ seq)
    (hle : ∀ r ∈ subs.rows, r.id ≤ seq) (hgone : ∀ i ≤ w.subSeq, w.subs.find i = none → subs.find i = none) :
    Inv { w with subs := subs, subSeq := seq } := by
  refine ⟨hi.nodup,hi.ids,fun p hp => ⟨(hi.bound p hp).1,(hi.bound p hp).2.trans hseq⟩,hi.origin,hi.attempts,hi.early,hi.flight,hi.landed,
    hi.posted,hle,fun p hp => ?_⟩
  rcases hi.accounted p hp with hrow | hpost | hnone | hnewer
  · exact Or.inl hrow
  · exact Or.inr (Or.inl hpost)
  · exact Or.inr (Or.inr (Or.inl (hgone p.subId (hi.bound p hp).2 hnone)))
  · exact Or.inr (Or.inr (Or.inr hnewer))

theorem Inv.addSub (hi : Inv w) (sub : SubRow) : Inv (w.addSub sub) := by
  refine hi.subscribers (Nat.le_succ _) (fun r hr => ?_) (fun i hle hnone => ?_)
  · rcases KeyedTable.mem_upsert.mp hr with ⟨hr,-⟩ | rfl
    · exact (hi.subs r hr).trans (Nat.le_succ _)
    · cases hf : w.subs.find (w.subSeq + 1) with
      | none => exact le_rfl
      | some q => exact (hi.subs q (KeyedTable.find_eq_some.mp hf).1).trans (Nat.le_succ _)
  · rw [KeyedTable.find_upsert, if_neg (fun h : i = w.subSeq + 1 => by omega), hnone]

theorem Inv.push (hi : Inv w) {subId : ℕ} (h : subId ≤ w.subSeq) (event : QueuedEvent) (err : String) (now : Instant) :
    Inv (w.push subId event err now) := by
  have hrow : ∀ r ∈ w.dlq.rows, r.id ≠ w.dlq.seq + 1 := fun r hr heq => by
    have hle := w.dlq.id_le r hr
    omega
  have hold : ∀ p, p ∈ w.pushed → p ∈ (w.push subId event err now).pushed := fun p hp => List.mem_append_left _ hp
  refine ⟨?_,?_,fun p hp => ?_,fun r hr => ?_,fun r hr => ?_,fun i hi' => (hi.early i hi').trans (Nat.le_succ _),fun q y hq => ?_,hi.landed,
    fun s hs => ?_,hi.subs,fun p hp => ?_⟩
  · change ((w.dlq.rows ++ [_]).map DlqRow.id).Nodup
    rw [List.map_append]
    refine List.nodup_append.mpr ⟨hi.nodup,List.nodup_singleton _,fun i hi' j hj => ?_⟩
    obtain ⟨r,hr,rfl⟩ := List.mem_map.mp hi'
    rw [List.mem_singleton.mp hj]
    exact hrow r hr
  · change ((w.pushed ++ [_]).map DlqRow.id).Nodup
    rw [List.map_append]
    refine List.nodup_append.mpr ⟨hi.ids,List.nodup_singleton _,fun i hi' j hj => ?_⟩
    obtain ⟨p,hp,rfl⟩ := List.mem_map.mp hi'
    rw [List.mem_singleton.mp hj]
    have hle := (hi.bound p hp).1
    exact Nat.ne_of_lt (Nat.lt_succ_of_le hle)
  · rcases List.mem_append.mp hp with hp | hp
    · exact ⟨(hi.bound p hp).1.trans (Nat.le_succ _),(hi.bound p hp).2⟩
    · rw [List.mem_singleton.mp hp]
      exact ⟨le_rfl,h⟩
  · rcases List.mem_append.mp hr with hr | hr
    · obtain ⟨p,hp,hsame⟩ := hi.origin r hr
      exact ⟨p,hold p hp,hsame⟩
    · exact ⟨r,List.mem_append_right _ hr,⟨rfl,rfl,rfl,rfl,rfl⟩⟩
  · rcases List.mem_append.mp hr with hr | hr
    · exact hi.attempts r hr
    · have hnew : w.dlq.seq + 1 ∉ w.failures := fun hmem => by
        have hle := hi.early _ hmem
        omega
      rw [List.mem_singleton.mp hr]
      change backoff.length = backoff.length + w.failures.count (w.dlq.seq + 1)
      rw [List.count_eq_zero_of_not_mem hnew, Nat.add_zero]
  · obtain ⟨p,hp,hsame⟩ := hi.flight q y hq
    exact ⟨p,hold p hp,hsame⟩
  · obtain ⟨p,hp,hsame⟩ := hi.posted s hs
    exact ⟨p,hold p hp,hsame⟩
  · rcases List.mem_append.mp hp with hp | hp
    · rcases hi.accounted p hp with ⟨r,hr,hid⟩ | hpost | hnone | ⟨q,hq,hlt⟩
      · exact Or.inl ⟨r,List.mem_append_left _ hr,hid⟩
      · exact Or.inr (Or.inl hpost)
      · exact Or.inr (Or.inr (Or.inl hnone))
      · exact Or.inr (Or.inr (Or.inr ⟨q,hold q hq,hlt⟩))
    · exact Or.inl ⟨p,List.mem_append_right _ hp,rfl⟩

theorem lookFor_ok {eid : ℕ} {r : Reading} (h : lookFor w loads eid = .ok r) : r.letter ∈ w.dlq.rows := by
  unfold lookFor at h
  split at h
  · cases h
  · next row hrow =>
    split at h
    · cases h
    · split_ifs at h
      split at h
      · cases h
      · rw [← Except.ok.inj h]
        exact List.mem_of_find?_eq_some hrow

theorem Inv.read (hi : Inv w) (rid eid : ℕ) : Inv (w.read loads rid eid) := by
  unfold World.read
  split
  · exact hi
  · next r hr =>
    refine hi.putReplay rid (fun y hy => ?_) nofun
    obtain rfl := Option.some_inj.mp hy
    exact hi.origin _ (lookFor_ok hr)

theorem Inv.send (hi : Inv w) {rid : ℕ} {r : Reading} (h : w.replays rid = some (.read r)) (post : Post) : Inv (w.send rid r post) := by
  obtain ⟨p,hp,hsame⟩ := hi.flight rid _ h
  unfold World.send
  split
  · exact hi.putReplay rid nofun nofun
  · next ok err _ =>
    have hi' : Inv { w with posts := w.posts ++ [⟨r.letter.id,r.letter.subId,r.url,r.letter.eventType,r.letter.payloadJson,ok⟩] } := by
      refine ⟨hi.nodup,hi.ids,hi.bound,hi.origin,hi.attempts,hi.early,hi.flight,fun q r' err' hq => ?_,fun s hs => ?_,hi.subs,fun p' hp' => ?_⟩
      · obtain ⟨s,hs,hacc⟩ := hi.landed q r' err' hq
        exact ⟨s,List.mem_append_left _ hs,hacc⟩
      · rcases List.mem_append.mp hs with hs | hs
        · exact hi.posted s hs
        · rw [List.mem_singleton.mp hs]
          exact ⟨p,hp,hsame.id,hsame.subId,hsame.eventType,hsame.payloadJson⟩
      · rcases hi.accounted p' hp' with hrow | ⟨s,hs,hacc⟩ | hrest
        · exact Or.inl hrow
        · exact Or.inr (Or.inl ⟨s,List.mem_append_left _ hs,hacc⟩)
        · exact Or.inr (Or.inr hrest)
    refine hi'.putReplay rid (fun y hy => ?_) (fun r' err' hr' => ?_)
    · obtain rfl := Option.some_inj.mp hy
      exact ⟨p,hp,hsame⟩
    · obtain ⟨rfl,rfl,-⟩ := Replaying.sent.inj (Option.some_inj.mp hr')
      exact ⟨_,List.mem_append_right _ (List.mem_singleton.mpr rfl),rfl,rfl⟩

theorem Inv.write (hi : Inv w) {rid : ℕ} {r : Reading} {ok : Bool} {err : String} (h : w.replays rid = some (.sent r ok err)) (now : Instant) :
    Inv (w.write rid r ok err now) := by
  obtain ⟨p,hp,hsame⟩ := hi.flight rid _ h
  have hi' : Inv (w.putReplay rid none) := hi.putReplay rid nofun nofun
  cases ok with
  | true =>
    obtain ⟨s,hs,hid,hacc⟩ := hi.landed rid r err h
    refine hi'.remove (fun q hq hgone p' hp' hsame' => Or.inl ⟨s,hs,?_,hacc⟩)
    rw [hid, hsame'.id]
    exact (of_decide_eq_true hgone).symm
  | false =>
    have hid : ∀ q : DlqRow, (if q.id = r.letter.id then failedAgain now err q else q).id = q.id := by
      intro q
      split <;> rfl
    have hmap : ((w.dlq.rows.map (fun q => if q.id = r.letter.id then failedAgain now err q else q)).map DlqRow.id) = w.dlq.rows.map DlqRow.id := by
      rw [List.map_map]
      exact List.map_congr_left (fun q _ => hid q)
    refine ⟨?_,hi'.ids,hi'.bound,fun q hq => ?_,fun q hq => ?_,fun i hi'' => ?_,hi'.flight,hi'.landed,hi'.posted,hi'.subs,fun p' hp' => ?_⟩
    · exact (congrArg List.Nodup hmap).mpr hi.nodup
    · obtain ⟨q₀,hq₀,rfl⟩ := List.mem_map.mp hq
      obtain ⟨p₀,hp₀,hsame₀⟩ := hi.origin q₀ hq₀
      refine ⟨p₀,hp₀,?_⟩
      split
      · exact ⟨hsame₀.id,hsame₀.subId,hsame₀.eventType,hsame₀.payloadJson,hsame₀.firstSeenAt⟩
      · exact hsame₀
    · obtain ⟨q₀,hq₀,rfl⟩ := List.mem_map.mp hq
      have hwas := hi.attempts q₀ hq₀
      change DlqRow.attempts _ = backoff.length + (w.failures ++ [r.letter.id]).count _
      rw [hid, List.count_append, List.count_singleton]
      by_cases hq₀id : q₀.id = r.letter.id
      · rw [if_pos hq₀id]
        simp [failedAgain, hwas, hq₀id, Nat.add_assoc]
      · rw [if_neg hq₀id]
        simp [hwas, Ne.symm hq₀id]
    · rcases List.mem_append.mp hi'' with hi'' | hi''
      · exact hi.early i hi''
      · rw [List.mem_singleton.mp hi'']
        exact hsame.id ▸ (hi.bound p hp).1
    · rcases hi.accounted p' hp' with ⟨q,hq,hqid⟩ | hrest
      · exact Or.inl ⟨_,List.mem_map_of_mem hq,(hid q).trans hqid⟩
      · exact Or.inr hrest

theorem Inv.step {a : Event} (hi : Inv w) (hs : Step loads w a v) : Inv v := by
  cases hs with
  | push h => exact hi.push h _ _ _
  | prune => exact hi.prune
  | addSub => exact hi.addSub _
  | @touchSubs f hf =>
    refine hi.subscribers le_rfl (fun r hr => ?_) (fun i _ hnone => ?_)
    · obtain ⟨q,hq,rfl⟩ := List.mem_map.mp hr
      rw [hf]
      exact hi.subs q hq
    · rw [KeyedTable.find_modify, hnone]
      rfl
  | @dropSub subId =>
    refine hi.subscribers le_rfl (fun r hr => hi.subs r (List.mem_of_mem_filter hr)) (fun i _ hnone => ?_)
    rw [KeyedTable.find_eq_none] at hnone ⊢
    exact fun r hr => hnone r (List.mem_of_mem_filter hr)
  | @dropLetters subId h =>
    refine hi.remove (fun r hr hgone p hp hsame => Or.inr (Or.inl ?_))
    rw [hsame.subId, of_decide_eq_true hgone]
    exact h
  | read h => exact hi.read _ _
  | send h => exact hi.send h _
  | write h => exact hi.write h _
  | abandon => exact hi.putReplay _ nofun nofun

end

/-! ## Runs -/

/-- A table without letters, and no replay under way. -/
structure Empty (w : World) : Prop where
  rows : w.dlq.rows = []
  replays : ∀ rid, w.replays rid = none
  pushed : w.pushed = []
  posts : w.posts = []
  failures : w.failures = []
  subs : ∀ r ∈ w.subs.rows, r.id ≤ w.subSeq

theorem Empty.inv {w : World} (h : Empty w) : Inv w := by
  obtain ⟨hrows,hreplays,hpushed,hposts,hfailures,hsubs⟩ := h
  refine ⟨by simp [hrows],by simp [hpushed],by simp [hpushed],by simp [hrows],by simp [hrows],by simp [hfailures],fun rid x hx => ?_,
    fun rid r err hx => ?_,by simp [hposts],hsubs,by simp [hpushed]⟩
  · cases (hreplays rid).symm.trans hx
  · cases (hreplays rid).symm.trans hx

/-- Behind a cut no two letters are more than a thousand ids apart. -/
theorem length_prune_le (d : Dlq) (h : (d.rows.map DlqRow.id).Nodup) : d.prune.rows.length ≤ 1001 := by
  have hnodup : (d.prune.rows.map DlqRow.id).Nodup := (List.filter_sublist.map _).nodup h
  have hnear : ∀ r ∈ d.prune.rows, ∀ q ∈ d.prune.rows, q.id ≤ r.id + 1000 := by
    intro r hr q hq
    obtain ⟨-,hkeep⟩ := List.mem_filter.mp hr
    by_contra hlt
    have hany : d.rows.any (fun q => r.id + 1000 < q.id) = true :=
      List.any_eq_true.mpr ⟨q,List.mem_of_mem_filter hq,decide_eq_true (not_le.mp hlt)⟩
    simp [hany] at hkeep
  rw [← List.length_map (f := DlqRow.id), ← List.toFinset_card_of_nodup hnodup]
  rcases (d.prune.rows.map DlqRow.id).toFinset.eq_empty_or_nonempty with hnone | hsome
  · rw [hnone]
    exact Nat.zero_le _
  · obtain ⟨m,hm,hmin⟩ := Finset.exists_min_image _ id hsome
    obtain ⟨r,hr,rfl⟩ := List.mem_map.mp (List.mem_toFinset.mp hm)
    have hsub : (d.prune.rows.map DlqRow.id).toFinset ⊆ Finset.Icc r.id (r.id + 1000) := by
      intro i hi
      obtain ⟨q,hq,rfl⟩ := List.mem_map.mp (List.mem_toFinset.mp hi)
      exact Finset.mem_Icc.mpr ⟨hmin _ hi,hnear r hr q hq⟩
    refine (Finset.card_le_card hsub).trans ?_
    rw [Nat.card_Icc]
    omega

/-- However pushes, cuts, replays and deletions fall between each other: no letter is lost in silence, one that is in the table is
as it was pushed and counts its attempts, a replay posts the letter it read and no other, and a cut leaves 1001 letters at most. -/
theorem dead_letters_accounted {loads : String → Option String} {init w : World} {ts : List Move} (h : Trace (Step loads) init ts w)
    (h0 : Empty init) :
    (∀ p ∈ w.pushed, Accounted w p) ∧
      (∀ r ∈ w.dlq.rows, (∃ p ∈ w.pushed, SameLetter p r) ∧ r.attempts = backoff.length + w.failures.count r.id) ∧
      (∀ s ∈ w.posts, ∃ p ∈ w.pushed, p.id = s.letter ∧ p.subId = s.subId ∧ p.eventType = s.eventType ∧ p.payloadJson = s.payloadJson) ∧
      ∀ t ∈ ts, t.label = .prune → t.after.dlq.rows.length ≤ 1001 := by
  obtain ⟨hi,hall⟩ := h.always h0.inv (fun _ hs hi => hi.step hs)
  refine ⟨hi.accounted,fun r hr => ⟨hi.origin r hr,hi.attempts r hr⟩,hi.posted,fun t ht hlabel => ?_⟩
  have hs := h.mem_step t ht
  have hinv := (hall t ht).1
  obtain ⟨w,a,v⟩ := t
  obtain rfl : a = .prune := hlabel
  change Step loads w .prune v at hs
  cases hs with
  | prune => exact length_prune_le _ hinv.nodup

/-! ## A letter that is replayed -/

def hook : SubRow := ⟨1,"https://soc.example/hook","s","*",true,none,"",0⟩

def hookHost : World := ⟨⟨[hook],by decide⟩,1,⟨[],0,fun _ h => absurd h List.not_mem_nil⟩,fun _ => none,[],[],[]⟩

def banned : QueuedEvent := ⟨"decision.created","{}"⟩

def reading : Reading := ⟨{ dlqEntry 1 banned "network: timed out" 5 with id := 1 },"https://soc.example/hook","s"⟩

/-- A letter whose receiver is down for a replay. -/
def hookFailed : World :=
  (((hookHost.push 1 banned "network: timed out" 5).read (fun _ => none) 0 1).send 0 reading (.response 502 "bad gateway")).write 0 reading
    false "HTTP 502: bad gateway" 9

theorem hookFailed_trace : ∃ ts, Trace (Step (fun _ => none)) hookHost ts hookFailed := by
  have h1 : Step (fun _ => none) hookHost _ (hookHost.push 1 banned "network: timed out" 5) := .push le_rfl
  have h2 := @Step.read (fun _ => none) (hookHost.push 1 banned "network: timed out" 5) 0 1 rfl
  have h3 := @Step.send (fun _ => none) ((hookHost.push 1 banned "network: timed out" 5).read (fun _ => none) 0 1) 0 reading
    (.response 502 "bad gateway") (by decide +kernel)
  have h4 : Step (fun _ => none) _ _ hookFailed := @Step.write (fun _ => none)
    (((hookHost.push 1 banned "network: timed out" 5).read (fun _ => none) 0 1).send 0 reading (.response 502 "bad gateway")) 0 reading false
    "HTTP 502: bad gateway" 9 (by decide +kernel)
  exact ⟨_,(((Trace.single h1).snoc h2).snoc h3).snoc h4⟩

theorem dead_letters_accounted_example : hookFailed.failures.length = 1 ∧
    ∀ r ∈ hookFailed.dlq.rows, r.attempts = backoff.length + hookFailed.failures.count r.id := by
  obtain ⟨ts,h⟩ := hookFailed_trace
  exact ⟨by decide +kernel,fun r hr => ((dead_letters_accounted h ⟨rfl,fun _ => rfl,rfl,rfl,rfl,by decide⟩).2.1 r hr).2⟩

end Protek.Outbound.Replay
