import Protek.Alerts.Alternation
import Protek.Federation.Ticks

/-! # The health of a source

What a pull does beside the decisions: the failure streak and the backoff of its source, and the
announcements that it is down or up again. Any of the writes may fail, and then a pull stops in the middle.
-/
namespace Protek.Federation.Health
open Foundation Foundation.PyText Foundation.Clock Protek.Federation
open Protek.Alerts (Edge Alternates nextEdge alternates_append nextEdge_append)

/-- How the request and what is made of its answer end. -/
inductive Pulled
  | ok (count : ℕ)
  | lapiError (error : String)
  | raised (error : String)
  deriving DecidableEq, Repr

/-- The error that each write of a pull raises, if it does: `record_pull`, `set_backoff`, the announcement, and the
`record_pull` of the last `except`; and the time that either `record_pull` reads. -/
structure Writes where
  recordedAt : Instant
  record : Option String := none
  backoff : Option String := none
  announce : Option String := none
  crash : Option String := none
  deriving DecidableEq, Repr

/-- A notification with its SIEM event, `firing` for down. One that is not complete has raised midway. -/
structure Announcement where
  name : String
  edge : Edge
  message : String
  subject : String
  siemEvent : String
  complete : Bool
  deriving DecidableEq, Repr

def upAnnouncement (src : SourceRow) (complete : Bool) : Announcement where
  name := src.name
  edge := .resolved
  message := "Source `" ++ src.name ++ "` recovered (" ++ src.url ++ ")."
  subject := "Source recovered: " ++ src.name
  siemEvent := "source.up"
  complete := complete

def backoffMinutes (streak : ℕ) : ℕ := min 30 (2 ^ (streak - 1))

def downAnnouncement (src : SourceRow) (error : String) (streak : ℕ) (complete : Bool) : Announcement where
  name := src.name
  edge := .firing
  message := "Source `" ++ src.name ++ "` failed: " ++ error ++ ". Backing off " ++ toString (backoffMinutes streak) ++ " min."
  subject := "Source down: " ++ src.name
  siemEvent := "source.down"
  complete := complete

/-- One pull, as it went: the time its tick listed the sources, its own, and the streak it wrote a backoff for. -/
structure Attempt where
  id : ℕ
  name : String
  boot : ℕ
  listedAt : Instant
  time : Instant
  waits : Option ℕ
  deriving DecidableEq, Repr

/-- The sources, what the poller remembers by name, and the sources that its tick has still to pull. The boots, the
announcements and the attempts are kept as they happen. -/
structure World where
  sources : Sources
  failStreak : String → ℕ
  prevLapiOk : String → Bool
  todo : List SourceRow
  listedAt : Instant
  boots : ℕ
  announced : List Announcement
  attempts : List Attempt

/-- What `_pull_source` returns, but for the duration. -/
structure PullReport where
  name : String
  ok : Bool
  error : String
  count : ℕ
  deriving DecidableEq, Repr

section
variable (w : World) (src : SourceRow) (e : Writes) (ms : ℕ)

def World.recordPull (count : ℕ) (error : String) : World :=
  { w with sources := w.sources.recordPull src.id count error ms e.recordedAt }

/-- The last `except`: what was reported as fine stays so beside the error. -/
def crash (ok : Bool) (count : ℕ) (error : String) : World × Except String PullReport :=
  match e.crash with
  | some text => (w,.error text)
  | none => (w.recordPull src e ms 0 error,.ok ⟨src.name,ok,error,count⟩)

def upAgain (count : ℕ) : World × Except String PullReport :=
  let w := { w with prevLapiOk := Function.update w.prevLapiOk src.name true }
  match e.backoff with
  | some text => crash w src e ms true count text
  | none => ({ w with sources := w.sources.setBackoff src.id none },.ok ⟨src.name,true,"",count⟩)

/-- The branch behind a pull that went well. -/
def succeed (count : ℕ) : World × Except String PullReport :=
  match e.record with
  | some text => crash w src e ms true count text
  | none =>
    let w := { w.recordPull src e ms count "" with failStreak := Function.update w.failStreak src.name 0 }
    if w.prevLapiOk src.name then upAgain w src e ms count
    else match e.announce with
      | some text => crash { w with announced := w.announced ++ [upAnnouncement src false] } src e ms true count text
      | none => upAgain { w with announced := w.announced ++ [upAnnouncement src true] } src e ms count

def down (error : String) : World × Except String PullReport :=
  ({ w with prevLapiOk := Function.update w.prevLapiOk src.name false },.ok ⟨src.name,false,error,0⟩)

variable (now : Instant)

/-- The branch of LAPIError, whose own errors nothing catches. -/
def fail (error : String) : World × Except String PullReport :=
  match e.record with
  | some text => (w,.error text)
  | none =>
    let streak := w.failStreak src.name + 1
    let w := { w.recordPull src e ms 0 error with failStreak := Function.update w.failStreak src.name streak }
    match e.backoff with
    | some text => (w,.error text)
    | none =>
      let w := { w with sources := w.sources.setBackoff src.id (some (now + backoffMinutes streak * minute)) }
      if w.prevLapiOk src.name then
        match e.announce with
        | some text => ({ w with announced := w.announced ++ [downAnnouncement src error streak false] },.error text)
        | none => down { w with announced := w.announced ++ [downAnnouncement src error streak true] } src error
      else down w src error

/-- `_pull_source`, but for the decisions. -/
def pullSource : Pulled → World × Except String PullReport
  | .ok count => succeed w src e ms count
  | .lapiError error => fail w src e ms now error
  | .raised error => crash w src e ms false 0 error

/-- The streak that a pull writes a backoff for. -/
def waitOf : Pulled → Option ℕ
  | .lapiError _ => if e.record = none ∧ e.backoff = none then some (w.failStreak src.name + 1) else none
  | _ => none

/-- A pull of the tick. -/
def World.pull (p : Pulled) : World :=
  let v := (pullSource w src e ms now p).1
  { v with
    todo := w.todo.erase src
    attempts := w.attempts ++ [⟨src.id,src.name,w.boots,w.listedAt,now,waitOf w src e p⟩] }

end

/-- `_sync_connection` and the listing of a tick. -/
def World.tick (w : World) (now : Instant) (connectionChanged : Bool) : World :=
  { w with
    failStreak := if connectionChanged then Function.update w.failStreak "local" 0 else w.failStreak
    prevLapiOk := if connectionChanged then Function.update w.prevLapiOk "local" true else w.prevLapiOk
    todo := w.sources.active now
    listedAt := now }

def World.restart (w : World) : World :=
  { w with failStreak := fun _ => 0, prevLapiOk := fun _ => true, todo := [], boots := w.boots + 1 }

inductive Event
  | admin (op : AdminOp)
  | tick (now : Instant) (connectionChanged : Bool)
  | pull (src : SourceRow) (p : Pulled) (e : Writes) (ms : ℕ) (now : Instant)
  | restart

/-- A tick lists the sources when the pulls of the one before are through, also where some of them raised. -/
inductive Step : World → Event → World → Prop
  | admin {w : World} {op : AdminOp} : Step w (.admin op) { w with sources := w.sources.perform op }
  | tick {w : World} {now : Instant} {connectionChanged : Bool} (h : w.todo = []) :
      Step w (.tick now connectionChanged) (w.tick now connectionChanged)
  | pull {w : World} {src : SourceRow} {p : Pulled} {e : Writes} {ms : ℕ} {now : Instant} (hsrc : src ∈ w.todo)
      (hnow : w.listedAt ≤ now) : Step w (.pull src p e ms now) (w.pull src e ms now p)
  | restart {w : World} : Step w .restart w.restart

abbrev Move := Transition World Event

/-! ## What a pull announces -/

/-- What a pull announces, with what the poller remembers before and after it. -/
inductive Said (name : String) : Bool → List Announcement → Bool → Prop
  | nothing (prev : Bool) : Said name prev [] prev
  | up {a : Announcement} (hname : a.name = name) (hedge : a.edge = .resolved) (hc : a.complete = true) : Said name false [a] true
  | upRaised {a : Announcement} (hname : a.name = name) (hedge : a.edge = .resolved) (hc : a.complete = false) :
      Said name false [a] false
  | down {a : Announcement} (hname : a.name = name) (hedge : a.edge = .firing) (hc : a.complete = true) : Said name true [a] false
  | downRaised {a : Announcement} (hname : a.name = name) (hedge : a.edge = .firing) (hc : a.complete = false) :
      Said name true [a] true

theorem Said.names {name : String} {prev next : Bool} {l : List Announcement} (h : Said name prev l next) : ∀ a ∈ l, a.name = name := by
  cases h with
  | nothing => exact fun a ha => absurd ha List.not_mem_nil
  | up hname | upRaised hname | down hname | downRaised hname =>
    intro a ha
    rw [List.mem_singleton.mp ha]
    exact hname

/-- A pull announces `l`, and what the poller remembers of other names stays. -/
structure Says (w : World) (name : String) (l : List Announcement) (v : World) : Prop where
  announced : v.announced = w.announced ++ l
  said : Said name (w.prevLapiOk name) l (v.prevLapiOk name)
  others : ∀ n, n ≠ name → v.prevLapiOk n = w.prevLapiOk n

section
variable {w : World} {src : SourceRow} {e : Writes} {ms : ℕ} {now : Instant}

theorem crash_said (ok : Bool) (count : ℕ) (error : String) :
    (crash w src e ms ok count error).1.announced = w.announced ∧ (crash w src e ms ok count error).1.prevLapiOk = w.prevLapiOk := by
  unfold crash
  split <;> exact ⟨rfl,rfl⟩

theorem upAgain_said (count : ℕ) : (upAgain w src e ms count).1.announced = w.announced ∧
    (upAgain w src e ms count).1.prevLapiOk = Function.update w.prevLapiOk src.name true := by
  unfold upAgain
  dsimp only
  split
  · exact crash_said _ _ _
  · exact ⟨rfl,rfl⟩

theorem says_of_eq {l : List Announcement} {v : World} (ha : v.announced = w.announced ++ l) (hp : v.prevLapiOk = w.prevLapiOk)
    (hs : Said src.name (w.prevLapiOk src.name) l (w.prevLapiOk src.name)) : Says w src.name l v :=
  ⟨ha,by rw [hp]; exact hs,fun n _ => by rw [hp]⟩

theorem says_of_update {l : List Announcement} {v : World} {b : Bool} (ha : v.announced = w.announced ++ l)
    (hp : v.prevLapiOk = Function.update w.prevLapiOk src.name b) (hs : Said src.name (w.prevLapiOk src.name) l b) :
    Says w src.name l v := by
  refine ⟨ha,?_,fun n hn => by rw [hp, Function.update_of_ne hn]⟩
  rw [hp, Function.update_self]
  exact hs

theorem succeed_says (count : ℕ) : ∃ l, Says w src.name l (succeed w src e ms count).1 := by
  unfold succeed
  split
  · obtain ⟨ha,hp⟩ := @crash_said w src e ms true count ‹_›
    exact ⟨[],says_of_eq (by rw [ha, List.append_nil]) hp (.nothing _)⟩
  · dsimp only
    split
    · next hprev =>
      have hprev' : w.prevLapiOk src.name = true := hprev
      obtain ⟨ha,hp⟩ := @upAgain_said { w.recordPull src e ms count "" with failStreak := Function.update w.failStreak src.name 0 } src e ms count
      exact ⟨[],says_of_update (by rw [ha, List.append_nil]; rfl) hp (by rw [hprev']; exact .nothing _)⟩
    · next hprev =>
      have hprev' : w.prevLapiOk src.name = false := by simpa [World.recordPull] using hprev
      split
      · obtain ⟨ha,hp⟩ := @crash_said { w.recordPull src e ms count "" with
          failStreak := Function.update w.failStreak src.name 0, announced := w.announced ++ [upAnnouncement src false] } src e ms true count ‹_›
        exact ⟨[upAnnouncement src false],says_of_eq ha hp (by rw [hprev']; exact .upRaised rfl rfl rfl)⟩
      · obtain ⟨ha,hp⟩ := @upAgain_said { w.recordPull src e ms count "" with
          failStreak := Function.update w.failStreak src.name 0, announced := w.announced ++ [upAnnouncement src true] } src e ms count
        exact ⟨[upAnnouncement src true],says_of_update ha hp (by rw [hprev']; exact .up rfl rfl rfl)⟩

theorem fail_says (error : String) : ∃ l, Says w src.name l (fail w src e ms now error).1 := by
  unfold fail
  split
  · exact ⟨[],says_of_eq (List.append_nil _).symm rfl (.nothing _)⟩
  · dsimp only
    split
    · exact ⟨[],says_of_eq (List.append_nil _).symm rfl (.nothing _)⟩
    · split
      · next hprev =>
        have hprev' : w.prevLapiOk src.name = true := hprev
        split
        · exact ⟨_,says_of_eq rfl rfl (by rw [hprev']; exact .downRaised rfl rfl rfl)⟩
        · exact ⟨_,says_of_update rfl rfl (by rw [hprev']; exact .down rfl rfl rfl)⟩
      · next hprev =>
        have hprev' : w.prevLapiOk src.name = false := by simpa [World.recordPull] using hprev
        exact ⟨[],says_of_update (List.append_nil _).symm rfl (by rw [hprev']; exact .nothing _)⟩

theorem pull_tells (p : Pulled) : ∃ l, Says w src.name l (w.pull src e ms now p) := by
  have hsource : ∃ l, Says w src.name l (pullSource w src e ms now p).1 := by
    cases p with
    | ok count => exact succeed_says count
    | lapiError error => exact fail_says error
    | raised error =>
      obtain ⟨ha,hp⟩ := @crash_said w src e ms false 0 error
      exact ⟨[],says_of_eq (by rw [pullSource, ha, List.append_nil]) hp (.nothing _)⟩
  obtain ⟨l,hl⟩ := hsource
  exact ⟨l,hl.announced,hl.said,hl.others⟩

end

/-! ## The announcements of a run -/

/-- The edges announced to the end. -/
def completed (name : String) (log : List Announcement) : List Edge :=
  (log.filter (fun a => a.name = name ∧ a.complete)).map Announcement.edge

def turnOf (prevOk : Bool) : Edge := if prevOk then .firing else .resolved

/-- Every announcement, to the end or not, is of the edge whose turn it is. -/
def InTurn (name : String) (log : List Announcement) : Prop :=
  ∀ front a back, log = front ++ a :: back → a.name = name → a.edge = nextEdge .firing (completed name front)

section
variable {name : String} {log : List Announcement} {a : Announcement}

theorem completed_snoc (log : List Announcement) (a : Announcement) :
    completed name (log ++ [a]) = completed name log ++ if a.name = name ∧ a.complete then [a.edge] else [] := by
  unfold completed
  rw [List.filter_append, List.map_append]
  by_cases h : a.name = name ∧ a.complete = true
  · simp [h]
  · rw [if_neg h, List.filter_cons_of_neg (by simpa using h)]
    rfl

theorem InTurn.snoc (h : InTurn name log) (ha : a.name = name → a.edge = nextEdge .firing (completed name log)) :
    InTurn name (log ++ [a]) := by
  intro front b back hsplit hb
  rcases back.eq_nil_or_concat with rfl | ⟨back,x,rfl⟩
  · obtain ⟨hlog,hab⟩ := List.append_inj' hsplit rfl
    obtain rfl := List.singleton_inj.mp hab
    exact hlog ▸ ha hb
  · have hsplit' : log ++ [a] = (front ++ b :: back) ++ [x] := by simpa using hsplit
    exact h front b back (List.append_inj' hsplit' rfl).1 hb

theorem InTurn.append_others {l : List Announcement} (h : InTurn name log) (hl : ∀ a ∈ l, a.name ≠ name) : InTurn name (log ++ l) := by
  induction l using List.reverseRecOn with
  | nil => rwa [List.append_nil]
  | append_singleton l a ih =>
    rw [← List.append_assoc]
    exact (ih (fun b hb => hl b (List.mem_append_left _ hb))).snoc (fun ha => absurd ha (hl a (by simp)))

theorem completed_append_others {l : List Announcement} (hl : ∀ a ∈ l, a.name ≠ name) : completed name (log ++ l) = completed name log := by
  have hnone : l.filter (fun a => a.name = name ∧ a.complete) = [] :=
    List.filter_eq_nil_iff.mpr (fun a ha hcond => hl a ha (of_decide_eq_true hcond).1)
  rw [completed, completed, List.filter_append, hnone, List.append_nil]

theorem InTurn.alternates (h : InTurn name log) : Alternates .firing (completed name log) := by
  induction log using List.reverseRecOn with
  | nil => exact trivial
  | append_singleton log a ih =>
    have hlog : InTurn name log := fun front b back hsplit => h front b (back ++ [a]) (by rw [hsplit]; simp)
    rw [completed_snoc, alternates_append]
    refine ⟨ih hlog,?_⟩
    split
    · next hc => exact ⟨h log a [] rfl hc.1,trivial⟩
    · exact trivial

end

/-- What the poller remembers says whose turn it is. -/
structure Remembers (name : String) (w : World) : Prop where
  inTurn : InTurn name w.announced
  turn : nextEdge .firing (completed name w.announced) = turnOf (w.prevLapiOk name)

/-- The poller forgets a name: it restarts, or the connection of the local source has changed. -/
def Forgets (name : String) (t : Move) : Prop :=
  t.label = .restart ∨ (name = "local" ∧ ∃ now, t.label = .tick now true)

section
variable {name : String} {w v : World} {l : List Announcement}

/-- One more announcement of the name, of the edge whose turn it is; only one to the end passes the turn on. -/
theorem Remembers.announce {a : Announcement} {next : Bool} (h : Remembers name w) (hann : v.announced = w.announced ++ [a])
    (hname : a.name = name) (hedge : a.edge = turnOf (w.prevLapiOk name)) (hnext : v.prevLapiOk name = next)
    (hturn : turnOf next = if a.complete then a.edge.other else a.edge) : Remembers name v := by
  have hmine : a.edge = nextEdge .firing (completed name w.announced) := hedge.trans h.turn.symm
  refine ⟨hann ▸ h.inTurn.snoc (fun _ => hmine),?_⟩
  rw [hann, completed_snoc, nextEdge_append, hnext, hturn, ← hmine]
  cases hc : a.complete with
  | true => simp [hname, nextEdge]
  | false => simp [nextEdge]

theorem Remembers.says (h : Remembers name w) (htells : Says w name l v) : Remembers name v := by
  obtain ⟨hann,hsaid,-⟩ := htells
  generalize hprev : w.prevLapiOk name = prev at hsaid
  generalize hnext : v.prevLapiOk name = next at hsaid
  cases hsaid with
  | nothing =>
    rw [List.append_nil] at hann
    exact ⟨hann ▸ h.inTurn,by rw [hann, h.turn, hprev, hnext]⟩
  | up hname hedge hc => exact h.announce hann hname (by rw [hedge, hprev]; rfl) hnext (by rw [hc, hedge]; rfl)
  | upRaised hname hedge hc => exact h.announce hann hname (by rw [hedge, hprev]; rfl) hnext (by rw [hc, hedge]; rfl)
  | down hname hedge hc => exact h.announce hann hname (by rw [hedge, hprev]; rfl) hnext (by rw [hc, hedge]; rfl)
  | downRaised hname hedge hc => exact h.announce hann hname (by rw [hedge, hprev]; rfl) hnext (by rw [hc, hedge]; rfl)

/-- What a pull says of another name. -/
theorem Remembers.says_of_ne {other : String} (h : Remembers name w) (htells : Says w other l v) (hne : name ≠ other) :
    Remembers name v := by
  obtain ⟨hann,hsaid,hothers⟩ := htells
  have hl : ∀ a ∈ l, a.name ≠ name := fun a ha hname => hne (hname.symm.trans (hsaid.names a ha))
  exact ⟨hann ▸ h.inTurn.append_others hl,by rw [hann, completed_append_others hl, h.turn, hothers name hne]⟩

theorem Remembers.step {a : Event} (h : Remembers name w) (hs : Step w a v) (hf : ¬ Forgets name ⟨w,a,v⟩) : Remembers name v := by
  cases hs with
  | admin => exact ⟨h.inTurn,h.turn⟩
  | @tick now connectionChanged _ =>
    refine ⟨h.inTurn,h.turn.trans (congrArg turnOf ?_)⟩
    unfold World.tick
    dsimp only
    split
    · next hchanged =>
      refine (Function.update_of_ne (fun hlocal => hf (Or.inr ⟨hlocal,now,?_⟩)) _ _).symm
      rw [hchanged]
    · rfl
  | @pull src p e ms now _ _ =>
    obtain ⟨l,hl⟩ := @pull_tells w src e ms now p
    by_cases hname : name = src.name
    · subst hname
      exact h.says hl
    · exact h.says_of_ne hl hname
  | restart => exact absurd (Or.inl rfl) hf

end

/-- From a poller that remembers nothing bad of a source, as long as it forgets nothing: the announcements of the source take
turns, down first; one that raised midway is of the edge that is announced next; and what the poller remembers says which
of the two was announced last. -/
theorem source_announcements_alternate {name : String} {init w : World} {ts : List Move} (h : Trace Step init ts w)
    (hlog : init.announced = []) (hok : init.prevLapiOk name = true) (hf : ∀ t ∈ ts, ¬ Forgets name t) :
    Alternates .firing (completed name w.announced) ∧ InTurn name w.announced ∧
      (w.prevLapiOk name = false ↔ nextEdge .firing (completed name w.announced) = .resolved) := by
  have h0 : Remembers name init := by
    refine ⟨?_,by rw [hlog, hok]; rfl⟩
    rw [hlog]
    intro front a back hsplit
    simp at hsplit
  obtain ⟨⟨hin,hturn⟩,-⟩ := h.invariant h0 (fun t hs hc hI => hI.step hs hc) hf
  refine ⟨hin.alternates,hin,?_⟩
  rw [hturn]
  cases w.prevLapiOk name <;> simp [turnOf]

/-! ## A source that fails once -/

def edgeRow : SourceRow := { id := 1, name := "edge", url := "http://10.0.0.2:8080", apiKey := "k", createdAt := "" }

def edgeSources : Sources := ⟨[edgeRow],1,by decide,by decide,by decide⟩

def edgeStart : World := ⟨edgeSources,fun _ => 0,fun _ => true,[],0,0,[],[]⟩

def edgeFailed : World := (edgeStart.tick 0 false).pull edgeRow { recordedAt := 1 } 3 1 (.lapiError "HTTP 502")

def failedRow : SourceRow :=
  { edgeRow with lastPullAt := some (isoformat 1), lastError := "HTTP 502", lastPullMs := 3, backoffUntil := some (minute + 1) }

/-- The announcement that it is up again raises, so that the next pull repeats it. -/
def edgeRaised : World :=
  (edgeFailed.tick (2 * minute) false).pull failedRow { recordedAt := 2, announce := some "database is locked", crash := some "again" } 5
    (2 * minute) (.ok 7)

def raisedRow : SourceRow := { failedRow with lastPullAt := some (isoformat 2), lastPullN := 7, lastError := "", lastPullMs := 5 }

def edgeUp : World := (edgeRaised.tick (3 * minute) false).pull raisedRow { recordedAt := 3 } 4 (3 * minute) (.ok 7)

theorem edgeUp_trace : ∃ ts, Trace Step edgeStart ts edgeUp ∧ ∀ t ∈ ts, ¬ Forgets "edge" t := by
  have h1 : Step edgeStart (.tick 0 false) (edgeStart.tick 0 false) := .tick rfl
  have h2 : Step (edgeStart.tick 0 false) _ edgeFailed := .pull (by decide) (by decide)
  have h3 : Step edgeFailed (.tick (2 * minute) false) (edgeFailed.tick (2 * minute) false) := .tick (by decide)
  have h4 : Step (edgeFailed.tick (2 * minute) false) _ edgeRaised := .pull (by decide) (by decide)
  have h5 : Step edgeRaised (.tick (3 * minute) false) (edgeRaised.tick (3 * minute) false) := .tick (by decide)
  have h6 : Step (edgeRaised.tick (3 * minute) false) _ edgeUp := .pull (by decide) (by decide)
  refine ⟨_,(((((Trace.single h1).snoc h2).snoc h3).snoc h4).snoc h5).snoc h6,?_⟩
  simp [Forgets]

theorem source_announcements_alternate_edge : Alternates .firing (completed "edge" edgeUp.announced) ∧ edgeUp.announced.length = 3 := by
  obtain ⟨ts,h,hf⟩ := edgeUp_trace
  exact ⟨(source_announcements_alternate h rfl rfl hf).1,by decide⟩

end Protek.Federation.Health
