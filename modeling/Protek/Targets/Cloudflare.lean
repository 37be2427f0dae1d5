import Protek.Diff.ClosedLoop
import Protek.Foundation.BoundedJournal
import Protek.Foundation.Paging
import Protek.Targets.PfSense

/-! # A Cloudflare list behind the diff engine

The list is shared with its operator. It is read page after page and written in chunks,
each of them at the mercy of the API: a page can fail, a chunk can be refused, and the
bucket can run dry in the middle.
-/
namespace Protek.Targets.Cloudflare
open Foundation Foundation.Paging Foundation.PyText Protek.Diff

/-! ## The API -/

/-- An item as a page shows it. -/
structure CfItem where
  id : String
  ip : String
  comment : Option String
  deriving DecidableEq

/-- A list of the account and the bucket before it; a request also carries what others do meanwhile. `history`
holds what is or was on the list, and `ensure` is `_ensure_list`. -/
structure CfList (σ : Type) where
  items : σ → List CfItem
  history : σ → List CfItem
  ensure : σ → σ × Option String
  acquire : σ → σ × Bool
  record429 : σ → σ
  get : σ → String → σ × Option (Page String CfItem)
  post : σ → List (String × String) → σ × Reply
  delete : σ → List String → σ × Reply

/-- No two items ever share an id, a page shows what is or was there, and nothing leaves the list but by its id. -/
structure CfList.Documented {σ : Type} (C : CfList σ) : Prop where
  distinct : ∀ s, ((C.history s).map CfItem.id).Nodup
  listed : ∀ s, C.items s ⊆ C.history s
  page : ∀ s c p, (C.get s c).2 = some p → p.items ⊆ C.history (C.get s c).1
  ensure : ∀ s, C.items s ⊆ C.items (C.ensure s).1
  acquire : ∀ s, C.items s ⊆ C.items (C.acquire s).1
  record429 : ∀ s, C.items s ⊆ C.items (C.record429 s)
  get : ∀ s c, C.items s ⊆ C.items (C.get s c).1
  post : ∀ s chunk, C.items s ⊆ C.items (C.post s chunk).1
  delete : ∀ s ids, ∀ x ∈ C.items s, x.id ∉ ids → x ∈ C.items (C.delete s ids).1

/-! ## The adapter -/

def SNAPSHOT_PAGE_SIZE : ℕ := 500

def BULK_SIZE : ℕ := 1000

/-- An absent comment is an empty one. -/
def entry (lid : String) (item : CfItem) : Entry where
  dotId := some item.id
  list := some lid
  address := some item.ip
  comment := some (item.comment.getD "")

def clip (n : ℕ) (s : String) : String := String.ofList (s.toList.take n)

def payload (p : String × String) : String × String := (p.1,clip 500 p.2)

def deferred (action : String) (res : ApplyResult) : ApplyResult :=
  { res with pushLog := res.pushLog ++ [⟨"(deferred)",action,false,some "backpressure — bucket exhausted"⟩] }

def taken (action : String) (ips : List String) (res : ApplyResult) : ApplyResult :=
  { res with pushLog := res.pushLog ++ ips.map (fun ip => ⟨ip,action,true,none⟩) }

def addTaken (chunk : List (String × String)) (res : ApplyResult) : ApplyResult :=
  taken "add" (chunk.map Prod.fst) { res with appliedAdd := res.appliedAdd + chunk.length }

def removeTaken (chunk : List String) (res : ApplyResult) : ApplyResult :=
  taken "remove" chunk { res with appliedRemove := res.appliedRemove + chunk.length }

section
variable {σ : Type} (C : CfList σ)

/-- At most `fuel` pages. -/
def snapshot (fuel : ℕ) (s : σ) : σ × List Entry :=
  match C.ensure s with
  | (s,none) => (s,[])
  | (s,some lid) => ((collect C.get SNAPSHOT_PAGE_SIZE fuel s "").1,(collect C.get SNAPSHOT_PAGE_SIZE fuel s "").2.map (entry lid))

/-- The requests of one kind, a token for each: an empty bucket and a 429 end them, another refusal does not, and
an exception, marked by `true`, ends the whole call. -/
def send {β : Type} (request : σ → List β → σ × Reply) (accepts : List ℕ) (action : String)
    (accept : List β → ApplyResult → ApplyResult) : List (List β) → σ × ApplyResult → (σ × ApplyResult) × Bool
  | [], st => (st,false)
  | chunk :: rest, st =>
    if (C.acquire st.1).2 = false then (((C.acquire st.1).1,deferred action st.2),false)
    else
      match request (C.acquire st.1).1 chunk with
      | (s,.raised e) => ((s,st.2.fail "" "?" (errorText e)),true)
      | (s,.answered status text) =>
        if status = 429 then ((C.record429 s,st.2.fail "(bulk)" action "CF 429 rate limited"),false)
        else if status ∈ accepts then send request accepts action accept rest (s,accept chunk st.2)
        else send request accepts action accept rest (s,st.2.fail "(bulk)" action ("CF " ++ toString status ++ ": " ++ clip 200 text))

def sendAdds (toAdd : List (String × String)) : σ × ApplyResult → (σ × ApplyResult) × Bool :=
  send C C.post [200,201,202] "add" addTaken (chunks BULK_SIZE (toAdd.map payload))

def sendRemoves (toRemoveIds : List String) : σ × ApplyResult → (σ × ApplyResult) × Bool :=
  send C C.delete [200,202] "remove" removeTaken (chunks BULK_SIZE toRemoveIds)

def apply (s : σ) (toAdd : List (String × String)) (toRemoveIds : List String) : σ × ApplyResult :=
  match C.ensure s with
  | (s,none) => (s,{ errors := 1 })
  | (s,some _) =>
    if (sendAdds C toAdd (s,{})).2 then (sendAdds C toAdd (s,{})).1 else (sendRemoves C toRemoveIds (sendAdds C toAdd (s,{})).1).1

/-- A live cycle on the list. -/
structure Push where
  desired : List Decision
  batchCap : ℕ
  fuel : ℕ

def push (U : CaseMap) (p : Push) (s : σ) : σ × ApplyResult :=
  let diff := reconcile U p.desired (snapshot C p.fuel s).2
  apply C (snapshot C p.fuel s).1 (diff.toAdd.take p.batchCap) (diff.toRemove.take p.batchCap)

def pushes (U : CaseMap) (ps : List Push) (s : σ) : σ := ps.foldl (fun s p => (push C U p s).1) s

end

/-! ## A list in memory -/

/-- A list that answers every request, in pages behind cursors as long as their place. -/
def memoryList : CfList (Journal (String × Option String)) :=
  let items := fun (s : Journal (String × Option String)) => s.rows.map (fun r => (⟨toString r.1,r.2.1,r.2.2⟩ : CfItem))
  { items := items
    history := items
    ensure := fun s => (s,some "protek_bans")
    acquire := fun s => (s,true)
    record429 := fun s => s
    get := fun s c => (s,some ⟨((items s).drop c.toList.length).take SNAPSHOT_PAGE_SIZE,
      if (items s).length ≤ c.toList.length + SNAPSHOT_PAGE_SIZE then none
      else some (String.ofList (List.replicate (c.toList.length + SNAPSHOT_PAGE_SIZE) 'x'))⟩)
    post := fun s chunk => (chunk.foldl (fun j p => j.insert (p.1,some p.2)) s,.answered 202 "")
    delete := fun s ids => (s.remove (fun r => decide (toString r.1 ∈ ids)),.answered 202 "") }

theorem documented_memoryList : memoryList.Documented where
  distinct := by
    intro s
    have hids : ((memoryList.history s).map CfItem.id) = (s.rows.map Prod.fst).map toString := by
      change (s.rows.map _).map _ = _
      rw [List.map_map, List.map_map]
      rfl
    rw [hids]
    exact List.Nodup.map toString_injective (s.sorted.imp ne_of_lt)
  listed := fun _ => List.Subset.refl _
  page := by
    intro s c p hp
    obtain rfl := Option.some_inj.mp hp
    exact fun x hx => List.mem_of_mem_drop (List.mem_of_mem_take hx)
  ensure := fun _ => List.Subset.refl _
  acquire := fun _ => List.Subset.refl _
  record429 := fun _ => List.Subset.refl _
  get := fun _ _ => List.Subset.refl _
  post := by
    intro s chunk
    change memoryList.items s ⊆ memoryList.items (chunk.foldl (fun j p => j.insert (p.1,some p.2)) s)
    induction chunk generalizing s with
    | nil => exact List.Subset.refl _
    | cons p chunk ih =>
      refine List.Subset.trans (fun x hx => ?_) (ih (s.insert (p.1,some p.2)))
      obtain ⟨r,hr,rfl⟩ := List.mem_map.mp hx
      exact List.mem_map_of_mem (Journal.mem_insert.mpr (Or.inl hr))
  delete := by
    intro s ids x hx hid
    obtain ⟨r,hr,rfl⟩ := List.mem_map.mp hx
    exact List.mem_map_of_mem (List.mem_filter.mpr ⟨hr,by simpa using hid⟩)

theorem serves_memoryList :
    Serves memoryList.get memoryList.items (fun c : String => c.toList.length) SNAPSHOT_PAGE_SIZE where
  keeps := fun _ _ => rfl
  page := by
    intro s c p hp
    obtain rfl := Option.some_inj.mp hp
    rfl
  more := by
    intro s c p c' hp hnext
    obtain rfl := Option.some_inj.mp hp
    dsimp only at hnext
    split_ifs at hnext
    obtain rfl := Option.some_inj.mp hnext
    rw [String.toList_ofList, List.length_replicate]
  last := by
    intro s c p hp hnext
    obtain rfl := Option.some_inj.mp hp
    dsimp only at hnext
    split_ifs at hnext with hle
    exact hle

/-- An address of the operator's, and a ban that has run out. -/
def sharedList : Journal (String × Option String) :=
  (Journal.empty.insert ("192.0.2.1",none)).insert ("203.0.113.9",some "protek:local:ssh-bf:4")

/-! ## What is read -/

section
variable {σ : Type} {C : CfList σ}

theorem eid_entry (lid : String) (item : CfItem) : (entry lid item).eid = item.id := by
  rw [Entry.eid, entry]
  change orElse (some item.id) "" = item.id
  by_cases h : item.id = ""
  · rw [h]
    rfl
  · exact orElse_some h _

/-- The snapshot is the front of the list, whatever page fails, and the whole of it when none does. -/
theorem cloudflare_snapshot_complete (C : CfList σ) {start : String → ℕ} (hserves : Serves C.get C.items start SNAPSHOT_PAGE_SIZE)
    (hstart : start "" = 0) (s : σ) {lid : String} (hlid : (C.ensure s).2 = some lid) (fuel : ℕ) :
    (snapshot C fuel s).2 <+: (C.items (C.ensure s).1).map (entry lid) ∧
      ((∀ s c, (C.get s c).2.isSome = true) → (C.items (C.ensure s).1).length ≤ SNAPSHOT_PAGE_SIZE * fuel →
        (snapshot C fuel s).2 = (C.items (C.ensure s).1).map (entry lid)) := by
  unfold snapshot
  cases hensure : C.ensure s with
  | mk s' found =>
    rw [hensure] at hlid
    obtain rfl : found = some lid := hlid
    dsimp only
    have hfront := hserves.collect_prefix fuel s' ""
    rw [hstart, List.drop_zero] at hfront
    refine ⟨hfront.map _,?_⟩
    intro hanswers hlen
    rw [hserves.collect_eq hanswers (by rw [hstart, Nat.zero_add]; exact hlen), hstart, List.drop_zero]

theorem cloudflare_snapshot_complete_example :
    (snapshot memoryList 1 sharedList).2 = (memoryList.items sharedList).map (entry "protek_bans") :=
  (cloudflare_snapshot_complete memoryList serves_memoryList rfl sharedList rfl 1).2 (fun _ _ => rfl) (by decide)

/-! ## What stays on the list -/

/-- A state law that the tokens and the requests for these chunks keep. -/
theorem send_law {β : Type} {request : σ → List β → σ × Reply} {accepts : List ℕ} {action : String}
    {accept : List β → ApplyResult → ApplyResult} {I : σ → Prop} (hacquire : ∀ s, I s → I (C.acquire s).1)
    (h429 : ∀ s, I s → I (C.record429 s)) {l : List (List β)} (hrequest : ∀ c ∈ l, ∀ s, I s → I (request s c).1)
    {st : σ × ApplyResult} (hst : I st.1) : I (send C request accepts action accept l st).1.1 := by
  induction l generalizing st with
  | nil => exact hst
  | cons chunk rest ih =>
    have htoken := hacquire _ hst
    have hreply := hrequest chunk List.mem_cons_self _ htoken
    have hrest := fun st => @ih (fun c hc => hrequest c (List.mem_cons_of_mem _ hc)) st
    unfold send
    split_ifs
    · exact htoken
    · split
      · rename_i s e hs
        rw [hs] at hreply
        exact hreply
      · rename_i s status text hs
        rw [hs] at hreply
        split_ifs
        · exact h429 _ hreply
        · exact hrest _ hreply
        · exact hrest _ hreply

/-- The item is not for removal: it is the operator's, or its address is desired. -/
def Kept (U : CaseMap) (x : CfItem) (desired : List Decision) : Prop :=
  isOwned (some (x.comment.getD "")) = false ∨ normalizeAddr U (some x.ip) ∈ desiredNorm U desired

variable {U : CaseMap}

theorem mem_snapshot (hC : C.Documented) {x : CfItem} {s : σ} (hx : x ∈ C.items s) (fuel : ℕ) :
    x ∈ C.items (snapshot C fuel s).1 ∧ ∀ e ∈ (snapshot C fuel s).2, e.eid = x.id → ∃ lid, e = entry lid x := by
  have hensure := hC.ensure s hx
  unfold snapshot
  cases hfound : C.ensure s with
  | mk s' found =>
    rw [hfound] at hensure
    cases found with
    | none => exact ⟨hensure,fun _ h => nomatch h⟩
    | some lid =>
      -- an item read under the id of `x`, while `x` is on the list, is `x`
      obtain ⟨hstays,hread⟩ := collect_law SNAPSHOT_PAGE_SIZE (I := fun s => x ∈ C.items s)
        (Q := fun a => a.id = x.id → a = x) (fun s c hs => hC.get s c hs) (fun s c p hs hp a ha hid =>
          List.inj_on_of_nodup_map (hC.distinct _) (hC.page s c p hp ha) (hC.listed _ (hC.get s c hs)) hid) fuel hensure ""
      refine ⟨hstays,?_⟩
      intro e he hid
      obtain ⟨a,ha,rfl⟩ := List.mem_map.mp he
      rw [eid_entry] at hid
      exact ⟨lid,by rw [hread a ha hid]⟩

theorem push_keeps (hC : C.Documented) {x : CfItem} {s : σ} (hx : x ∈ C.items s) (p : Push) (hkept : Kept U x p.desired) :
    x ∈ C.items (push C U p s).1 := by
  obtain ⟨hread,hentry⟩ := mem_snapshot hC hx p.fuel
  rw [push]
  generalize snapshot C p.fuel s = r at hread hentry
  have hno : x.id ∉ (reconcile U p.desired r.2).toRemove.take p.batchCap := by
    intro hmem
    obtain ⟨e,he,⟨howned,hstale⟩,hid,-⟩ := mem_toRemove (List.mem_of_mem_take hmem)
    obtain ⟨lid,rfl⟩ := hentry e he hid
    rcases hkept with hforeign | hdesired
    · rw [entry] at howned
      rw [hforeign] at howned
      cases howned
    · exact hstale hdesired
  have hadds : ∀ toAdd st, x ∈ C.items (st : σ × ApplyResult).1 → x ∈ C.items (sendAdds C toAdd st).1.1 := fun toAdd st hst =>
    send_law (I := fun s => x ∈ C.items s) (fun s hs => hC.acquire s hs) (fun s hs => hC.record429 s hs)
      (fun c _ s hs => hC.post s c hs) hst
  have hensure := hC.ensure r.1 hread
  unfold apply
  split
  · rename_i s' hfound
    rw [hfound] at hensure
    exact hensure
  · rename_i s' lid hfound
    rw [hfound] at hensure
    split_ifs
    · exact hadds _ _ hensure
    · refine send_law (I := fun s => x ∈ C.items s) (fun s hs => hC.acquire s hs) (fun s hs => hC.record429 s hs) ?_ (hadds _ _ hensure)
      intro c hc s hs
      exact hC.delete s c x hs (fun hin => hno (mem_of_mem_chunk hc hin))

/-- Whatever pages fail and whatever requests are refused, no run of cycles takes an item off the list that is
the operator's or whose address stays desired. -/
theorem cloudflare_keeps_foreign (hC : C.Documented) (ps : List Push) (s : σ) (x : CfItem) (hx : x ∈ C.items s)
    (hkept : ∀ p ∈ ps, Kept U x p.desired) : x ∈ C.items (pushes C U ps s) := by
  induction ps generalizing s with
  | nil => exact hx
  | cons p ps ih =>
    have hstep := push_keeps hC hx p (hkept p List.mem_cons_self)
    exact ih _ hstep (fun q hq => hkept q (List.mem_cons_of_mem _ hq))

theorem cloudflare_keeps_foreign_example :
    (⟨"1","192.0.2.1",none⟩ : CfItem) ∈ memoryList.items (pushes memoryList .ascii [⟨[],200,1⟩,⟨[],200,1⟩] sharedList) :=
  cloudflare_keeps_foreign documented_memoryList _ sharedList _ (by decide) (fun _ _ => Or.inl (by decide))

/-! ## What is reported -/

/-- The lines of one action that report a success. -/
def logged (action : String) (res : ApplyResult) : List String :=
  (res.pushLog.filter (fun e => e.success && decide (e.action = action))).map PushEntry.ip

section
variable {β : Type} {ip : β → String} {action : String} {count other : ApplyResult → ℕ} {chunk : List β} {rest sent : List (List β)}
  {before mid after : ApplyResult} {ended : Bool} {line : PushEntry} {lines : List PushEntry}

def successLines (ip : β → String) (action : String) (l : List β) : List PushEntry := l.map (fun b => ⟨ip b,action,true,none⟩)

/-- What the requests of one kind add to a result: the chunks that went through, and the lines about them and the others. -/
structure Sends (ip : β → String) (action : String) (count other : ApplyResult → ℕ) (all : List (List β)) (before after : ApplyResult)
    (ended : Bool) (sent : List (List β)) (lines : List PushEntry) : Prop where
  sublist : sent.Sublist all
  pushLog : after.pushLog = before.pushLog ++ lines
  successes : lines.filter PushEntry.success = successLines ip action sent.flatten
  errors : before.errors ≤ after.errors
  count : count after = count before + sent.flatten.length
  other : other after = other before
  complete : (∀ e ∈ lines, e.success = true) → sent = all ∧ ended = false

theorem sends_nil : Sends ip action count other [] before before false [] [] where
  sublist := List.Sublist.refl _
  pushLog := (List.append_nil _).symm
  successes := rfl
  errors := le_rfl
  count := rfl
  other := rfl
  complete := fun _ => ⟨rfl,rfl⟩

/-- A request that ends the calls has its one line. -/
theorem sends_end {all : List (List β)} (hlog : after.pushLog = before.pushLog ++ [line]) (hline : line.success = false)
    (herrors : before.errors ≤ after.errors) (hcount : count after = count before) (hother : other after = other before) :
    Sends ip action count other all before after ended [] [line] where
  sublist := List.nil_sublist _
  pushLog := hlog
  successes := by
    rw [List.filter_singleton, hline]
    rfl
  errors := herrors
  count := hcount
  other := hother
  complete := fun h => absurd (h line List.mem_cons_self) (by rw [hline]; decide)

theorem Sends.refused (h : Sends ip action count other rest mid after ended sent lines)
    (hlog : mid.pushLog = before.pushLog ++ [line]) (hline : line.success = false) (herrors : before.errors ≤ mid.errors)
    (hcount : count mid = count before) (hother : other mid = other before) :
    Sends ip action count other (chunk :: rest) before after ended sent (line :: lines) where
  sublist := h.sublist.cons _
  pushLog := by rw [h.pushLog, hlog, List.append_assoc, List.singleton_append]
  successes := by rw [List.filter_cons_of_neg (by rw [hline]; decide), h.successes]
  errors := herrors.trans h.errors
  count := by rw [h.count, hcount]
  other := by rw [h.other, hother]
  complete := fun hall => absurd (hall line List.mem_cons_self) (by rw [hline]; decide)

theorem Sends.accepted (h : Sends ip action count other rest mid after ended sent lines)
    (hlog : mid.pushLog = before.pushLog ++ successLines ip action chunk) (herrors : mid.errors = before.errors)
    (hcount : count mid = count before + chunk.length) (hother : other mid = other before) :
    Sends ip action count other (chunk :: rest) before after ended (chunk :: sent) (successLines ip action chunk ++ lines) where
  sublist := h.sublist.cons_cons _
  pushLog := by rw [h.pushLog, hlog, List.append_assoc]
  successes := by
    have hall : (successLines ip action chunk).filter PushEntry.success = successLines ip action chunk := by
      refine List.filter_eq_self.mpr (fun e he => ?_)
      obtain ⟨b,-,rfl⟩ := List.mem_map.mp he
      rfl
    rw [List.filter_append, hall, h.successes, List.flatten_cons, successLines, successLines, successLines, List.map_append]
  errors := herrors ▸ h.errors
  count := by rw [h.count, hcount, List.flatten_cons, List.length_append, Nat.add_assoc]
  other := by rw [h.other, hother]
  complete := by
    intro hall
    obtain ⟨hsent,hended⟩ := h.complete (fun e he => hall e (List.mem_append_right _ he))
    exact ⟨by rw [hsent],hended⟩

/-- `count` and `other` are the two counters of a result. -/
def IgnoresLog (count : ApplyResult → ℕ) : Prop :=
  ∀ (res : ApplyResult) (errors : ℕ) (l : List PushEntry), count { res with errors := errors, pushLog := l } = count res

theorem send_sends {request : σ → List β → σ × Reply} {accepts : List ℕ} {accept : List β → ApplyResult → ApplyResult}
    (hcount : IgnoresLog count) (hother : IgnoresLog other)
    (haccept : ∀ c res, (accept c res).pushLog = res.pushLog ++ successLines ip action c ∧ (accept c res).errors = res.errors ∧
      count (accept c res) = count res + c.length ∧ other (accept c res) = other res) (l : List (List β)) (st : σ × ApplyResult) :
    ∃ sent lines, Sends ip action count other l st.2 (send C request accepts action accept l st).1.2
      (send C request accepts action accept l st).2 sent lines := by
  induction l generalizing st with
  | nil => exact ⟨[],[],sends_nil⟩
  | cons chunk rest ih =>
    unfold send
    split_ifs
    · exact ⟨[],_,sends_end rfl rfl le_rfl (hcount _ _ _) (hother _ _ _)⟩
    · split
      · exact ⟨[],_,sends_end rfl rfl (Nat.le_succ _) (hcount _ _ _) (hother _ _ _)⟩
      · rename_i s status text _
        split_ifs
        · exact ⟨[],_,sends_end rfl rfl (Nat.le_succ _) (hcount _ _ _) (hother _ _ _)⟩
        · obtain ⟨sent,lines,h⟩ := ih (s,accept chunk st.2)
          obtain ⟨hlog,herrors,hc,ho⟩ := haccept chunk st.2
          exact ⟨_,_,h.accepted hlog herrors hc ho⟩
        · obtain ⟨sent,lines,h⟩ := ih (s,st.2.fail "(bulk)" action ("CF " ++ toString status ++ ": " ++ clip 200 text))
          exact ⟨_,_,h.refused rfl rfl (Nat.le_succ _) (hcount _ _ _) (hother _ _ _)⟩

theorem ignoresLog_add : IgnoresLog ApplyResult.appliedAdd := fun _ _ _ => rfl

theorem ignoresLog_remove : IgnoresLog ApplyResult.appliedRemove := fun _ _ _ => rfl

theorem sendAdds_sends (toAdd : List (String × String)) (st : σ × ApplyResult) :
    ∃ sent lines, Sends Prod.fst "add" ApplyResult.appliedAdd ApplyResult.appliedRemove (chunks BULK_SIZE (toAdd.map payload)) st.2
      (sendAdds C toAdd st).1.2 (sendAdds C toAdd st).2 sent lines := by
  have haccept : ∀ (c : List (String × String)) (res : ApplyResult),
      (addTaken c res).pushLog = res.pushLog ++ successLines Prod.fst "add" c ∧ (addTaken c res).errors = res.errors ∧
        (addTaken c res).appliedAdd = res.appliedAdd + c.length ∧ (addTaken c res).appliedRemove = res.appliedRemove := by
    intro c res
    rw [addTaken, taken, successLines, List.map_map]
    exact ⟨rfl,rfl,rfl,rfl⟩
  exact send_sends ignoresLog_add ignoresLog_remove haccept _ st

theorem sendRemoves_sends (toRemoveIds : List String) (st : σ × ApplyResult) :
    ∃ sent lines, Sends id "remove" ApplyResult.appliedRemove ApplyResult.appliedAdd (chunks BULK_SIZE toRemoveIds) st.2
      (sendRemoves C toRemoveIds st).1.2 (sendRemoves C toRemoveIds st).2 sent lines := by
  have haccept : ∀ (c : List String) (res : ApplyResult),
      (removeTaken c res).pushLog = res.pushLog ++ successLines id "remove" c ∧ (removeTaken c res).errors = res.errors ∧
        (removeTaken c res).appliedRemove = res.appliedRemove + c.length ∧ (removeTaken c res).appliedAdd = res.appliedAdd :=
    fun _ _ => ⟨rfl,rfl,rfl,rfl⟩
  exact send_sends ignoresLog_remove ignoresLog_add haccept _ st

/-- The success lines of one action among those of a kind of request. -/
theorem Sends.logged (h : Sends ip action count other rest before after ended sent lines) (a : String) :
    Cloudflare.logged a after = Cloudflare.logged a before ++ if action = a then sent.flatten.map ip else [] := by
  have hfilter : lines.filter (fun e => e.success && decide (e.action = a)) =
      (successLines ip action sent.flatten).filter (fun e => decide (e.action = a)) := by
    rw [← h.successes, List.filter_filter]
    exact List.filter_congr (fun e _ => Bool.and_comm _ _)
  rw [Cloudflare.logged, Cloudflare.logged, h.pushLog, List.filter_append, List.map_append, hfilter]
  congr 1
  split_ifs with ha
  · rw [List.filter_eq_self.mpr, successLines, List.map_map]
    · rfl
    · intro e he
      obtain ⟨b,-,rfl⟩ := List.mem_map.mp he
      exact decide_eq_true ha
  · rw [List.filter_eq_nil_iff.mpr]
    · rfl
    · intro e he
      obtain ⟨b,-,rfl⟩ := List.mem_map.mp he
      simpa using ha

end

theorem map_fst_payload (l : List (String × String)) : (l.map payload).map Prod.fst = l.map Prod.fst := by
  rw [List.map_map]
  rfl

/-- The counters are the success lines of the log, these are in order among what was asked for, and a call
without an error or a failed line has done all of it. -/
theorem cloudflare_apply_accounts (C : CfList σ) (s : σ) (toAdd : List (String × String)) (toRemoveIds : List String) :
    let res := (apply C s toAdd toRemoveIds).2
    res.appliedAdd = (logged "add" res).length ∧ res.appliedRemove = (logged "remove" res).length ∧
      (logged "add" res).Sublist (toAdd.map Prod.fst) ∧ (logged "remove" res).Sublist toRemoveIds ∧
      (res.errors = 0 → (∀ e ∈ res.pushLog, e.success = true) →
        logged "add" res = toAdd.map Prod.fst ∧ logged "remove" res = toRemoveIds) := by
  have hfront : ∀ {sent : List (List (String × String))}, sent.Sublist (chunks BULK_SIZE (toAdd.map payload)) →
      (sent.flatten.map Prod.fst).Sublist (toAdd.map Prod.fst) := by
    intro sent hsent
    have h := hsent.flatten.map Prod.fst
    rwa [flatten_chunks (by decide), map_fst_payload] at h
  unfold apply
  split
  · rename_i s' _
    exact ⟨rfl,rfl,List.nil_sublist _,List.nil_sublist _,fun h => absurd h Nat.one_ne_zero⟩
  · rename_i s' lid _
    obtain ⟨sent,lines,h⟩ := sendAdds_sends (C := C) toAdd (s',{})
    have hadd := h.logged "add"
    have hremove := h.logged "remove"
    rw [if_pos rfl] at hadd
    rw [if_neg (by decide)] at hremove
    have hcount := h.count
    have hother := h.other
    split_ifs with hended
    · refine ⟨?_,?_,?_,?_,?_⟩
      · rw [hcount, hadd, List.length_append, List.length_map]
        rfl
      · rw [hother, hremove]
        rfl
      · rw [hadd]
        exact hfront h.sublist
      · rw [hremove]
        exact List.nil_sublist _
      · intro _ hall
        obtain ⟨-,hend⟩ := h.complete (fun e he => hall e (by rw [h.pushLog]; exact List.mem_append_right _ he))
        rw [hend] at hended
        cases hended
    · obtain ⟨sent',lines',h'⟩ := sendRemoves_sends (C := C) toRemoveIds (sendAdds C toAdd (s',{})).1
      have hadd' := h'.logged "add"
      have hremove' := h'.logged "remove"
      rw [if_neg (by decide), hadd] at hadd'
      rw [if_pos rfl, hremove] at hremove'
      have hcount' := h'.count
      have hother' := h'.other
      refine ⟨?_,?_,?_,?_,?_⟩
      · rw [hother', hcount, hadd', List.append_nil, List.length_append, List.length_map]
        rfl
      · rw [hcount', hother, hremove', List.append_nil, List.length_append, List.length_map]
        rfl
      · rw [hadd', List.append_nil]
        exact hfront h.sublist
      · rw [hremove']
        have hsub := h'.sublist.flatten
        rw [flatten_chunks (by decide)] at hsub
        simpa [logged] using hsub
      · intro _ hall
        have hlog := h'.pushLog
        rw [h.pushLog] at hlog
        obtain ⟨rfl,-⟩ := h.complete (fun e he => hall e (by rw [hlog]; simp [he]))
        obtain ⟨rfl,-⟩ := h'.complete (fun e he => hall e (by rw [hlog]; simp [he]))
        rw [hadd', hremove', flatten_chunks (by decide), flatten_chunks (by decide), map_fst_payload]
        exact ⟨List.append_nil _,List.map_id _⟩

end
end Protek.Targets.Cloudflare
