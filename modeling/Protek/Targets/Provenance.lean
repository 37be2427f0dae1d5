import Protek.Diff.ClosedLoop
import Protek.Mirror.Poller
import Protek.Targets.DecisionWriters
import Protek.Targets.EntryCap
import Protek.Targets.SelfTest

/-! # Where blocks come from

The way of a ban from a LAPI to a target, in its single steps: pulls that send one statement after
another, the other writers of decisions, and cycles in several processes that list, read and push.
An entry on a target is only as good as the row that was listed for it, and that as its writer.
-/
namespace Protek.Targets.Provenance
open Foundation Foundation.PyText Foundation.Clock Protek.Store Protek.Mirror Protek.Policy Protek.Diff Protek.Targets.DecisionWriters

/-- The database, the LAPIs, what is left of the pulls, the lists of the cycles, their diffs, and the targets. -/
structure World (ε κ ι τ : Type*) where
  db : Db
  lapis : ε → Lapi
  pulls : κ → Pull
  desired : ι → Option (List DesiredRow)
  diffs : ι × τ → Option ReconcileDiff
  targets : τ → List Entry

inductive Event (ε κ ι τ : Type*)
  | lapiAdd (e : ε) (d : LapiDecision)
  | lapiRemove (e : ε) (id : ℤ)
  | full (k : κ) (e : ε) (name : String) (now : Instant) (ip range : List LapiDecision)
  | delta (k : κ) (e : ε) (name : String) (now : Instant) (new deleted : List LapiDecision)
  | lost (e : ε)
  | statement (k : κ)
  | write (a : Write)
  | list (i : ι) (now : Instant)
  | read (i : ι) (x : τ) (f : TargetFilters) (reputation : BulkComputeForMin) (ok : Bool)
  | push (i : ι) (x : τ) (cap : ℕ)
  | outside (x : τ)

variable {ε κ ι τ : Type*}

section
variable [DecidableEq ε] [DecidableEq κ] [DecidableEq ι] [DecidableEq τ] (U : CaseMap) (T : CharTable) (compile : Compile)

/-- A pull is full or incremental as the poller's flag has it, which is left open here; one that is begun anew has failed, or is over. -/
inductive Step : World ε κ ι τ → Event ε κ ι τ → World ε κ ι τ → Prop
  | lapiAdd {w : World ε κ ι τ} {e : ε} {d : LapiDecision} (h : (w.lapis e).Unused d) :
      Step w (.lapiAdd e d) { w with lapis := Function.update w.lapis e ((w.lapis e).add d h) }
  | lapiRemove {w : World ε κ ι τ} {e : ε} {i : ℤ} :
      Step w (.lapiRemove e i) { w with lapis := Function.update w.lapis e ((w.lapis e).retire i) }
  | full {w : World ε κ ι τ} {k : κ} {e : ε} {name : String} {now : Instant} {ip range : List LapiDecision} {lapi : Lapi}
      (hip : (w.lapis e).ServesDecisions "Ip" "ban" ip) (hrange : (w.lapis e).ServesDecisions "Range" "ban" range)
      (hl : lapi = w.lapis e ∨ lapi = (w.lapis e).advance) :
      Step w (.full k e name now ip range)
        { w with lapis := Function.update w.lapis e lapi
                 pulls := Function.update w.pulls k (Pull.start name (isoformat now) (.full (ip ++ range))) }
  | delta {w : World ε κ ι τ} {k : κ} {e : ε} {name : String} {now : Instant} {new deleted : List LapiDecision}
      (h : (w.lapis e).ServesStream new deleted) :
      Step w (.delta k e name now new deleted)
        { w with lapis := Function.update w.lapis e (w.lapis e).advance
                 pulls := Function.update w.pulls k (Pull.start name (isoformat now) (.delta new deleted)) }
  | lost {w : World ε κ ι τ} {e : ε} : Step w (.lost e) { w with lapis := Function.update w.lapis e (w.lapis e).advance }
  | statement {w : World ε κ ι τ} {k : κ} :
      Step w (.statement k)
        { w with db := (advanceOps w.db (w.pulls k).name (w.pulls k).ops).1
                 pulls := Function.update w.pulls k ((w.pulls k).rest w.db) }
  | write {w : World ε κ ι τ} {a : Write} {db : Db} (h : DecisionWriters.Step T w.db a db) (hother : ∀ s, a ≠ .mirror s) :
      Step w (.write a) { w with db := db }
  | list {w : World ε κ ι τ} {i : ι} {now : Instant} :
      Step w (.list i now)
        { w with db := (desiredFromDb U T w.db now).2, desired := Function.update w.desired i (some (desiredFromDb U T w.db now).1) }
  -- a snapshot that raises counts as an empty one
  | read {w : World ε κ ι τ} {i : ι} {x : τ} {f : TargetFilters} {reputation : BulkComputeForMin} {ok : Bool} {l : List DesiredRow}
      (h : w.desired i = some l) :
      Step w (.read i x f reputation ok)
        { w with diffs := Function.update w.diffs (i,x)
                   (some (reconcile U ((filterDesiredForBouncer compile reputation f l).map decisionOf) (if ok then w.targets x else []))) }
  -- of what it is told, a target does what it can
  | push {w : World ε κ ι τ} {i : ι} {x : τ} {cap : ℕ} {diff : ReconcileDiff} {added s : List Entry} {removed : List String}
      (h : w.diffs (i,x) = some diff)
      (hadd : (added.map (fun e => (e.address,e.comment))).Sublist ((diff.toAdd.take cap).map (fun p => (some p.1,some p.2))))
      (hremove : removed.Sublist (diff.toRemove.take cap)) (hs : s.Perm ((w.targets x).filter (fun e => e.eid ∉ removed) ++ added)) :
      Step w (.push i x cap) { w with diffs := Function.update w.diffs (i,x) none, targets := Function.update w.targets x s }
  -- other hands on a target leave no entry with the marker
  | outside {w : World ε κ ι τ} {x : τ} {s : List Entry} (h : ∀ e ∈ s, isOwned e.comment = true → e ∈ w.targets x) :
      Step w (.outside x) { w with targets := Function.update w.targets x s }

end

abbrev Move (ε κ ι τ : Type*) := Transition (World ε κ ι τ) (Event ε κ ι τ)

/-- The step is a pull for the source that is given the decision, which is active at its LAPI. -/
def Pulls (t : Move ε κ ι τ) (name : String) (d : LapiDecision) : Prop :=
  ∃ k e now, d ∈ (t.before.lapis e).active ∧
    ((∃ ip range, t.label = .full k e name now ip range ∧ d.listed = true) ∨
      ∃ new deleted, t.label = .delta k e name now new deleted ∧ d.inScope = true)

/-- Someone has banned what the key names: a row from before the run, a LAPI, or a writer of the program. -/
def Vouched (T : CharTable) (w : World ε κ ι τ) (ts : List (Move ε κ ι τ)) (k : String × Identity) : Prop :=
  (∃ r ∈ w.db.activeRows, r.key = k) ∨ (∃ t ∈ ts, ∃ d, Pulls t k.1 d ∧ d.identity = k.2) ∨
    ∃ t ∈ ts, ∃ a now, t.label = .write a ∧ written T t.before.db a = some (k,now)

/-- The step lists the value: it has an active row, enough sources have seen it, no rule spares it, and where approval is asked for
it has been approved. -/
def Lists (U : CaseMap) (T : CharTable) (t : Move ε κ ι τ) (value : String) : Prop :=
  ∃ i now, t.label = .list i now ∧ Eligible T t.before.db now value ∧ whitelisted U t.before.db now value = none

/-- A step of the run lists the value, for a row that someone had vouched for before. -/
def Proposed (U : CaseMap) (T : CharTable) (w : World ε κ ι τ) (ts : List (Move ε κ ι τ)) (value : String) : Prop :=
  ∃ pre t post, ts = pre ++ t :: post ∧ Lists U T t value ∧ ∃ r ∈ t.before.db.activeRows, r.value = value ∧ Vouched T w pre r.key

/-- No pull and no cycle is under way. -/
structure Started (w : World ε κ ι τ) : Prop where
  pulls : ∀ k, (w.pulls k).ops = []
  desired : ∀ i, w.desired i = none
  diffs : ∀ y, w.diffs y = none

/-- What there is in a state of the run has a source in the run. -/
structure Sourced (U : CaseMap) (T : CharTable) (w₀ : World ε κ ι τ) (ts : List (Move ε κ ι τ)) (w : World ε κ ι τ) : Prop where
  pulls : ∀ k d now, .send (.upsertDecision (w.pulls k).name d now) ∈ (w.pulls k).ops → ∃ t ∈ ts, Pulls t (w.pulls k).name d
  rows : ∀ r ∈ w.db.activeRows, Vouched T w₀ ts r.key
  desired : ∀ i l, w.desired i = some l → ∀ d ∈ l, Proposed U T w₀ ts d.value
  diffs : ∀ y diff, w.diffs y = some diff → ∀ p ∈ diff.toAdd, ∃ value, p.1 = strip value ∧ Proposed U T w₀ ts value
  targets : ∀ x, ∀ e ∈ w.targets x, isOwned e.comment = true →
    e ∈ w₀.targets x ∨ ∃ value, e.address = some (strip value) ∧ Proposed U T w₀ ts value

section
variable {U : CaseMap} {T : CharTable} {compile : Compile} {w w₀ v : World ε κ ι τ} {ts us : List (Move ε κ ι τ)} {value : String}

theorem Vouched.mono {k : String × Identity} (h : Vouched T w ts k) : Vouched T w (ts ++ us) k := by
  rcases h with hrow | ⟨t,ht,hpull⟩ | ⟨t,ht,hwrite⟩
  · exact Or.inl hrow
  · exact Or.inr (Or.inl ⟨t,List.mem_append_left _ ht,hpull⟩)
  · exact Or.inr (Or.inr ⟨t,List.mem_append_left _ ht,hwrite⟩)

theorem Proposed.mono (h : Proposed U T w ts value) : Proposed U T w (ts ++ us) value := by
  obtain ⟨pre,t,post,rfl,hrest⟩ := h
  exact ⟨pre,t,post ++ us,by rw [List.append_assoc, List.cons_append],hrest⟩

theorem Sourced.mono (h : Sourced U T w₀ ts w) : Sourced U T w₀ (ts ++ us) w where
  pulls k d now hd := by
    obtain ⟨t,ht,hpull⟩ := h.pulls k d now hd
    exact ⟨t,List.mem_append_left _ ht,hpull⟩
  rows r hr := (h.rows r hr).mono
  desired i l hl d hd := (h.desired i l hl d hd).mono
  diffs y diff hdiff p hp := by
    obtain ⟨value,hvalue,hprop⟩ := h.diffs y diff hdiff p hp
    exact ⟨value,hvalue,hprop.mono⟩
  targets x e he howned := by
    rcases h.targets x e he howned with hold | ⟨value,hvalue,hprop⟩
    · exact Or.inl hold
    · exact Or.inr ⟨value,hvalue,hprop.mono⟩

/-- The inserts of a pull are those of its answer. -/
theorem mem_ops_start {name now now' src : String} {answer : PullAnswer} {d : LapiDecision}
    (h : .send (.upsertDecision src d now') ∈ (Pull.start name now answer).ops) :
    (∃ decisions, answer = .full decisions ∧ d ∈ decisions) ∨ ∃ new deleted, answer = .delta new deleted ∧ d ∈ new := by
  have hsee : ∀ e, .upsertDecision src d now' ∉ seeIpStmt name now e := by
    intro e he
    unfold seeIpStmt at he
    split at he
    · exact absurd he List.not_mem_nil
    · cases List.mem_singleton.mp he
  change _ ∈ pullOps name now answer at h
  cases answer with
  | full decisions =>
    simp only [pullOps, upsertStmts, List.mem_append, List.mem_cons, List.mem_map, reduceCtorEq, false_or, PullOp.send.injEq] at h
    rcases h with ⟨_,⟨e,he,rfl⟩,hst⟩ | ⟨_,hst,rfl⟩
    · obtain ⟨-,rfl,-⟩ := Stmt.upsertDecision.inj hst
      exact Or.inl ⟨decisions,rfl,he⟩
    · obtain ⟨e,-,he⟩ := List.mem_flatMap.mp hst
      exact absurd he (hsee e)
  | delta new deleted =>
    simp only [pullOps, streamStmts, List.mem_map, List.mem_append, List.mem_flatMap, List.mem_cons, PullOp.send.injEq] at h
    rcases h with ⟨_,⟨e,he,rfl | hst⟩ | ⟨e,-,rfl⟩,hst'⟩
    · obtain ⟨-,rfl,-⟩ := Stmt.upsertDecision.inj hst'
      exact Or.inr ⟨new,deleted,rfl,he⟩
    · exact absurd (hst' ▸ hst) (hsee e)
    · cases hst'

/-- A statement leaves no insert in a pull that was not in it. -/
theorem mem_advanceOps {db : Db} {name src now : String} {ops : List PullOp} {d : LapiDecision}
    (h : .send (.upsertDecision src d now) ∈ (advanceOps db name ops).2) : .send (.upsertDecision src d now) ∈ ops := by
  match ops with
  | [] => exact h
  | .send _ :: rest => exact List.mem_cons_of_mem _ h
  | .tombstoneUnseen decisions _ :: rest =>
    rcases List.mem_append.mp h with h | h
    · obtain ⟨_,-,hk⟩ := List.mem_map.mp h
      cases PullOp.send.inj hk
    · exact List.mem_cons_of_mem _ h

/-- The addresses of a diff are values of the list it was made from. -/
theorem mem_toAdd_filtered {f : TargetFilters} {reputation : BulkComputeForMin} {l : List DesiredRow} {current : List Entry}
    {p : String × String} (h : p ∈ (reconcile U ((filterDesiredForBouncer compile reputation f l).map decisionOf) current).toAdd) :
    ∃ d ∈ l, p.1 = strip d.value := by
  have hkey := List.mem_map_of_mem (f := Prod.fst) h
  rw [map_fst_toAdd] at hkey
  obtain ⟨c,hc,hcp⟩ := List.mem_map.mp (OrderedDict.mem_firstKeys.mp (List.mem_filter.mp hkey).1)
  obtain ⟨d,hd,rfl⟩ := List.mem_map.mp (List.mem_filter.mp hc).1
  refine ⟨d,mem_of_mem_filterDesired hd,hcp.symm.trans (congrArg strip ?_)⟩
  by_cases hv : d.value = ""
  · change orElse (some d.value) "" = _
    rw [hv]
    rfl
  · exact orElse_some hv ""

/-- The rows after a statement of a pull. -/
theorem Sourced.rows_statement (h : Sourced U T w₀ ts w) {k : κ} {r : DecisionRow}
    (hr : r ∈ (advanceOps w.db (w.pulls k).name (w.pulls k).ops).1.activeRows) : Vouched T w₀ ts r.key := by
  have hpulls := h.pulls k
  have howned := (w.pulls k).owned
  generalize (w.pulls k).ops = ops at hr hpulls howned
  match ops with
  | [] => exact h.rows r hr
  | .tombstoneUnseen _ _ :: _ => exact h.rows r hr
  | .send st :: rest =>
    rcases activeRows_step (.mirror : DecisionWriters.Step T w.db (.mirror st) (exec w.db st)) hr with ⟨now,hw⟩ | ⟨q,hq,hkey⟩
    · cases st with
      | upsertDecision src d now' =>
        obtain ⟨hkey,-⟩ := Prod.mk.inj (Option.some_inj.mp hw)
        obtain rfl : src = (w.pulls k).name := howned _ List.mem_cons_self
        obtain ⟨t,ht,hpull⟩ := hpulls d now' List.mem_cons_self
        rw [← hkey]
        refine Or.inr (Or.inl ⟨t,ht,d,hpull,(recordedKey_of_inScope ?_).symm⟩)
        obtain ⟨_,_,_,-,⟨_,_,-,hlisted⟩ | ⟨_,_,-,hscope⟩⟩ := hpull
        · exact inScope_of_listed hlisted
        · exact hscope
      | tombstoneIdentity _ _ _ => cases hw
      | tombstoneLapiId _ _ _ => cases hw
      | seeIp _ _ _ => cases hw
    · exact hkey ▸ h.rows q hq

variable [DecidableEq ε] [DecidableEq κ] [DecidableEq ι] [DecidableEq τ] {e : Event ε κ ι τ}

theorem Sourced.step (h : Sourced U T w₀ ts w) (hs : Step U T compile w e v) : Sourced U T w₀ (ts ++ [⟨w,e,v⟩]) v := by
  have hmono : Sourced U T w₀ (ts ++ [⟨w,e,v⟩]) w := h.mono
  cases hs with
  | lapiAdd _ => exact ⟨hmono.pulls,hmono.rows,hmono.desired,hmono.diffs,hmono.targets⟩
  | lapiRemove => exact ⟨hmono.pulls,hmono.rows,hmono.desired,hmono.diffs,hmono.targets⟩
  | lost => exact ⟨hmono.pulls,hmono.rows,hmono.desired,hmono.diffs,hmono.targets⟩
  | @full k e name now ip range lapi hip hrange hl =>
    refine ⟨fun k' d now' hd => ?_,hmono.rows,hmono.desired,hmono.diffs,hmono.targets⟩
    dsimp only at hd ⊢
    by_cases hk : k' = k
    · subst hk
      rw [Function.update_self] at hd ⊢
      refine ⟨_,List.mem_append_right _ (List.mem_singleton_self _),k',e,now,?_⟩
      rcases mem_ops_start hd with ⟨_,hfull,hmem⟩ | ⟨_,_,hdelta,-⟩
      · cases hfull
        obtain ⟨hact,hlisted⟩ := (Lapi.mem_listing hip hrange d).mp hmem
        exact ⟨hact,Or.inl ⟨ip,range,rfl,hlisted⟩⟩
      · cases hdelta
    · rw [Function.update_of_ne hk] at hd ⊢
      exact hmono.pulls k' d now' hd
  | @delta k e name now new deleted hserve =>
    refine ⟨fun k' d now' hd => ?_,hmono.rows,hmono.desired,hmono.diffs,hmono.targets⟩
    dsimp only at hd ⊢
    by_cases hk : k' = k
    · subst hk
      rw [Function.update_self] at hd ⊢
      refine ⟨_,List.mem_append_right _ (List.mem_singleton_self _),k',e,now,?_⟩
      rcases mem_ops_start hd with ⟨_,hfull,-⟩ | ⟨_,_,hdelta,hmem⟩
      · cases hfull
      · cases hdelta
        obtain ⟨hact,-,hscope⟩ := (hserve.mem_new d).mp hmem
        exact ⟨hact,Or.inr ⟨new,deleted,rfl,hscope⟩⟩
    · rw [Function.update_of_ne hk] at hd ⊢
      exact hmono.pulls k' d now' hd
  | @statement k =>
    refine ⟨fun k' d now' hd => ?_,fun r hr => ?_,hmono.desired,hmono.diffs,hmono.targets⟩
    · dsimp only at hd ⊢
      by_cases hk : k' = k
      · subst hk
        rw [Function.update_self] at hd ⊢
        exact hmono.pulls k' d now' (mem_advanceOps hd)
      · rw [Function.update_of_ne hk] at hd ⊢
        exact hmono.pulls k' d now' hd
    · exact hmono.rows_statement hr
  | @write a db hw hother =>
    refine ⟨hmono.pulls,fun r hr => ?_,hmono.desired,hmono.diffs,hmono.targets⟩
    rcases activeRows_step hw hr with ⟨now,hwritten⟩ | ⟨q,hq,hkey⟩
    · exact Or.inr (Or.inr ⟨_,List.mem_append_right _ (List.mem_singleton_self _),a,now,rfl,hwritten⟩)
    · exact hkey ▸ hmono.rows q hq
  | @list i now =>
    refine ⟨hmono.pulls,fun r hr => ?_,fun j l hl d hd => ?_,hmono.diffs,hmono.targets⟩
    · refine hmono.rows r ?_
      rw [Db.mem_activeRows] at hr ⊢
      rwa [← @decisions_desiredFromDb U T w.db now]
    · dsimp only at hl
      by_cases hj : j = i
      · subst hj
        rw [Function.update_self] at hl
        rw [← Option.some_inj.mp hl] at hd
        obtain ⟨⟨r,hr,hvalue⟩,hgates,hspared⟩ := mem_desiredFromDb.mp ⟨d,hd,rfl⟩
        exact ⟨ts,_,[],rfl,⟨j,now,rfl,hgates,hspared⟩,r,hr,hvalue,h.rows r hr⟩
      · rw [Function.update_of_ne hj] at hl
        exact hmono.desired j l hl d hd
  | @read i x f reputation ok l hl =>
    refine ⟨hmono.pulls,hmono.rows,hmono.desired,fun y diff hdiff p hp => ?_,hmono.targets⟩
    dsimp only at hdiff
    by_cases hy : y = (i,x)
    · subst hy
      rw [Function.update_self] at hdiff
      rw [← Option.some_inj.mp hdiff] at hp
      obtain ⟨d,hd,hvalue⟩ := mem_toAdd_filtered hp
      exact ⟨d.value,hvalue,hmono.desired i l hl d hd⟩
    · rw [Function.update_of_ne hy] at hdiff
      exact hmono.diffs y diff hdiff p hp
  | @push i x cap diff added s removed hdiff hadd hremove hperm =>
    refine ⟨hmono.pulls,hmono.rows,hmono.desired,fun y diff' hdiff' p hp => ?_,fun x' e he howned => ?_⟩
    · dsimp only at hdiff'
      by_cases hy : y = (i,x)
      · subst hy
        rw [Function.update_self] at hdiff'
        cases hdiff'
      · rw [Function.update_of_ne hy] at hdiff'
        exact hmono.diffs y diff' hdiff' p hp
    · dsimp only at he
      by_cases hx : x' = x
      · subst hx
        rw [Function.update_self] at he
        rcases List.mem_append.mp (hperm.mem_iff.mp he) with hkept | hnew
        · exact hmono.targets x' e (List.mem_filter.mp hkept).1 howned
        · obtain ⟨p,hp,heq⟩ := List.mem_map.mp (hadd.subset (List.mem_map_of_mem hnew))
          obtain ⟨value,hvalue,hprop⟩ := hmono.diffs (i,x') diff hdiff p (List.mem_of_mem_take hp)
          exact Or.inr ⟨value,by rw [← hvalue]; exact (Prod.mk.inj heq).1.symm,hprop⟩
      · rw [Function.update_of_ne hx] at he
        exact hmono.targets x' e he howned
  | @outside x s houtside =>
    refine ⟨hmono.pulls,hmono.rows,hmono.desired,hmono.diffs,fun x' e he howned => ?_⟩
    dsimp only at he
    by_cases hx : x' = x
    · subst hx
      rw [Function.update_self] at he
      exact hmono.targets x' e (houtside e he howned) howned
    · rw [Function.update_of_ne hx] at he
      exact hmono.targets x' e he howned

end

def quiet : World Unit Unit Unit Unit := ⟨Db.empty,fun _ => Feed.empty,fun _ => Pull.idle,fun _ => none,fun _ => none,fun _ => []⟩

def ban : LapiDecision := ⟨7,"203.0.113.7","Ip","ban","ssh-bf","crowdsec","4h",none⟩

def blocked : Entry := { id := some "*1", address := some "203.0.113.7", comment := some "protek:local:ssh-bf:7" }

end Protek.Targets.Provenance
