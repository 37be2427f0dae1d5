import Protek.Foundation.SharedCounter
import Protek.Policy.Feed

/-! # The sequence number of the published feed

`build_feed` collects the entries, reads the last sequence number from the settings and
writes the next one back, each in a connection of its own. The endpoint is public, so
builds run side by side in the workers while the poller changes the decisions.
-/
namespace Protek.Policy
open Foundation Foundation.PyText Foundation.Clock Protek.Store

structure FeedBody where
  version : String := "1"
  issuer : String
  issuedAt : String
  sequence : ℤ
  count : ℕ
  entries : List FeedEntry
  deriving DecidableEq, Repr

/-- How far one call of `build_feed` has got. -/
inductive Build
  | idle
  | collected (entries : List FeedEntry)
  | holding (entries : List FeedEntry) (seen : ℤ)
  | stored (entries : List FeedEntry) (seq : ℤ)
  | returned (body : FeedBody)
  | failed
  deriving DecidableEq, Repr

structure FeedState (ι : Type*) where
  db : Db
  builds : ι → Build

inductive FeedAction (ι : Type*)
  | collect (i : ι) (now : Instant)
  | read (i : ι)
  | write (i : ι)
  | finish (i : ι) (now : Instant)
  | change

def seqKey : String := "intel.publish.seq"

section
variable (U : CaseMap) (T : CharTable) {ι : Type*} [DecidableEq ι]

/-- `int(get_setting("intel.publish.seq") or "0")`, `none` where it raises. -/
def lastSeq (db : Db) : Option ℤ := pyInt T (orElse (db.settings seqKey) "0")

/-- One statement of one build, or a change of the database that leaves the sequence number alone. -/
inductive FeedStep : FeedState ι → FeedAction ι → FeedState ι → Prop
  | collect {s : FeedState ι} {i : ι} {now : Instant} (h : s.builds i = .idle) :
      FeedStep s (.collect i now)
        { s with builds := Function.update s.builds i (.collected (feedEntries U s.db now)) }
  | read {s : FeedState ι} {i : ι} {entries : List FeedEntry} {n : ℤ} (h : s.builds i = .collected entries)
      (hn : lastSeq T s.db = some n) :
      FeedStep s (.read i) { s with builds := Function.update s.builds i (.holding entries n) }
  | unread {s : FeedState ι} {i : ι} {entries : List FeedEntry} (h : s.builds i = .collected entries)
      (hn : lastSeq T s.db = none) :
      FeedStep s (.read i) { s with builds := Function.update s.builds i .failed }
  | write {s : FeedState ι} {i : ι} {entries : List FeedEntry} {n : ℤ} (h : s.builds i = .holding entries n) :
      FeedStep s (.write i)
        ⟨s.db.setSetting seqKey (toString (n + 1)),Function.update s.builds i (.stored entries (n + 1))⟩
  | finish {s : FeedState ι} {i : ι} {entries : List FeedEntry} {n : ℤ} {now : Instant}
      (h : s.builds i = .stored entries n) :
      FeedStep s (.finish i now)
        { s with builds := Function.update s.builds i (.returned {
            issuer := orElse (s.db.settings "intel.publish.issuer") "protek"
            issuedAt := isoformat now
            sequence := n
            count := entries.length
            entries := entries }) }
  | change {s : FeedState ι} {db : Db} (h : db.settings seqKey = s.db.settings seqKey) :
      FeedStep s .change { s with db := db }

end

abbrev FeedMove (ι : Type*) := Transition (FeedState ι) (FeedAction ι)

/-- No build stands between its read and its write. -/
def Quiet {ι : Type*} (s : FeedState ι) : Prop := ∀ i entries n, s.builds i ≠ .holding entries n

/-- No two bodies carry one number, and a build that starts after another has returned carries a larger one. -/
structure Numbered {ι : Type*} (ts : List (FeedMove ι)) (s : FeedState ι) : Prop where
  unique : ∀ i j b c, s.builds i = .returned b → s.builds j = .returned c → b.sequence = c.sequence → i = j
  ordered : ∀ us t vs i j now b c, ts = us ++ t :: vs → t.label = .collect j now → t.before.builds i = .returned b →
    s.builds j = .returned c → b.sequence < c.sequence

section
variable {U : CaseMap} {T : CharTable} {ι : Type*}

theorem lastSeq_setSetting (db : Db) (n : ℤ) : lastSeq T (db.setSetting seqKey (toString n)) = some n := by
  have hne : toString n ≠ "" := by
    intro h
    have := pyInt_toString CharTable.ascii n
    rw [h] at this
    cases this
  unfold lastSeq
  rw [Db.settings_setSetting, if_pos rfl, orElse_some hne, pyInt_toString]

variable [DecidableEq ι]

variable {db : Db} {ts : List (FeedMove ι)} {s : FeedState ι}

/-- The sequence number is that of before, or the one that a build has written. -/
theorem lastSeq_of_step {s u : FeedState ι} {a : FeedAction ι} (hs : FeedStep U T s a u) :
    lastSeq T u.db = lastSeq T s.db ∨ ∃ i e n, s.builds i = .holding e n ∧ lastSeq T u.db = some (n + 1) := by
  cases hs with
  | @write i e n hw => exact Or.inr ⟨i,e,n,hw,lastSeq_setSetting s.db (n + 1)⟩
  | change hdb =>
    refine Or.inl ?_
    unfold lastSeq
    rw [hdb]
  | collect hw => exact Or.inl rfl
  | read hw hsome => exact Or.inl rfl
  | unread hw hnone => exact Or.inl rfl
  | finish hw => exact Or.inl rfl

theorem quiet_step {s u : FeedState ι} {a : FeedAction ι} (hs : FeedStep U T s a u) (hnone : lastSeq T s.db = none)
    (hq : Quiet s) : Quiet u := by
  have hkeep : ∀ {i : ι} {x : Build}, (∀ e n, x ≠ .holding e n) →
      Quiet { s with builds := Function.update s.builds i x } := by
    intro i x hx j e n hj
    dsimp only at hj
    rcases eq_or_ne j i with rfl | hne
    · exact hx e n (by rwa [Function.update_self] at hj)
    · exact hq j e n (by rwa [Function.update_of_ne hne] at hj)
  cases hs with
  | collect hw => exact hkeep (by simp)
  | read hw hsome =>
    rw [hnone] at hsome
    cases hsome
  | unread hw _ => exact hkeep (by simp)
  | write hw => exact absurd hw (hq _ _ _)
  | finish hw => exact hkeep (by simp)
  | change hdb => exact hq

/-- The last number is no number, and no build takes the next one. -/
structure Unreadable (T : CharTable) (s : FeedState ι) : Prop where
  none : lastSeq T s.db = none
  quiet : Quiet s

theorem Unreadable.step {s u : FeedState ι} {a : FeedAction ι} (h : Unreadable T s) (hs : FeedStep U T s a u) :
    Unreadable T u := by
  refine ⟨?_,quiet_step hs h.none h.quiet⟩
  rcases lastSeq_of_step hs with heq | ⟨i,e,n,hw,-⟩
  · rw [heq, h.none]
  · exact absurd hw (h.quiet i e n)

end

end Protek.Policy
