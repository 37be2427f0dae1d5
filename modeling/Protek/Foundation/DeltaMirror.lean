import Protek.Foundation.OrderedDict
import Mathlib.Logic.Function.Basic

/-! # Mirroring a feed through snapshots and deltas

A feed holds active items with unique ids and, since a reader's cursor, the ids
that came and the items that went. The mirror holds at most one row a key. A
snapshot replaces it, a delta upserts what came by key and drops what went by
the one id its row holds. Several active items may share a key, and then the two
views of an item part: the mirror is exact when active keys are distinct, and
else only while no row's own item goes before another one of its key.
-/
namespace Foundation

structure Feed (D I : Type*) (id : D → I) where
  active : List D
  pending : List I
  gone : List D
  nodup : (active.map id).Nodup
  disjoint : ∀ d ∈ active, ∀ g ∈ gone, id d ≠ id g

namespace Feed
variable {D I : Type*} {id : D → I}

def empty : Feed D I id := ⟨[],[],[],by simp,by simp⟩

/-- An id that neither an active item nor one that went since the cursor has. -/
def Unused (f : Feed D I id) (d : D) : Prop := ∀ e ∈ f.active ++ f.gone, id e ≠ id d

def add (f : Feed D I id) (d : D) (h : f.Unused d) : Feed D I id where
  active := f.active ++ [d]
  pending := id d :: f.pending
  gone := f.gone
  nodup := by
    rw [List.map_append]
    refine List.nodup_append.mpr ⟨f.nodup,List.nodup_singleton _,?_⟩
    intro i hi j hj he
    obtain ⟨e,hemem,rfl⟩ := List.mem_map.mp hi
    rw [List.map_singleton, List.mem_singleton] at hj
    exact h e (List.mem_append_left _ hemem) (he.trans hj)
  disjoint := by
    intro e he g hg
    rcases List.mem_append.mp he with he | he
    · exact f.disjoint e he g hg
    · rw [List.mem_singleton.mp he]
      exact fun heq => h g (List.mem_append_right _ hg) heq.symm

def advance (f : Feed D I id) : Feed D I id := ⟨f.active,[],[],f.nodup,by simp⟩

variable [DecidableEq I]

def retire (f : Feed D I id) (i : I) : Feed D I id where
  active := f.active.filter (fun d => id d ≠ i)
  pending := f.pending
  gone := f.gone ++ f.active.filter (fun d => id d = i)
  nodup := (List.filter_sublist.map id).nodup f.nodup
  disjoint := by
    intro d hd g hg
    obtain ⟨hd,hne⟩ := List.mem_filter.mp hd
    rcases List.mem_append.mp hg with hg | hg
    · exact f.disjoint d hd g hg
    · have hgi : id g = i := by simpa using (List.mem_filter.mp hg).2
      simpa [hgi] using hne

theorem mem_retire {f : Feed D I id} {i : I} {d : D} : d ∈ (f.retire i).active ↔ d ∈ f.active ∧ id d ≠ i := by
  simp [retire]

theorem mem_retire_or {f : Feed D I id} {i : I} {d : D} :
    d ∈ (f.retire i).active ++ (f.retire i).gone ↔ d ∈ f.active ++ f.gone := by
  by_cases h : id d = i <;> simp [retire, h, or_comm]

end Feed

/-- How a mirror sees the items of a feed: their key, the row it records, and the id that row holds. -/
structure Shape (D K I P : Type*) where
  id : D → I
  key : D → K
  row : D → P
  rowId : P → I
  rowId_row : ∀ d, rowId (row d) = id d

namespace Shape
open OrderedDict
variable {D K I P : Type*} [DecidableEq K] [DecidableEq I] (S : Shape D K I P)

def upsert (v : K → Option P) (d : D) : K → Option P := Function.update v (S.key d) (some (S.row d))

def retract (v : K → Option P) (i : I) : K → Option P := fun k => (v k).filter (fun p => S.rowId p ≠ i)

def load (items : List D) : K → Option P := items.foldl S.upsert (fun _ => none)

def replay (v : K → Option P) (new gone : List D) : K → Option P :=
  (gone.map S.id).foldl S.retract (new.foldl S.upsert v)

variable {S}

omit [DecidableEq I] in
theorem foldl_upsert (v : K → Option P) (new : List D) (k : K) :
    new.foldl S.upsert v k = match lastWith S.key k new with
      | some d => some (S.row d)
      | none => v k := by
  induction new using List.reverseRecOn with
  | nil => rfl
  | append_singleton l d ih =>
    rw [List.foldl_append, lastWith_concat]
    change Function.update (l.foldl S.upsert v) (S.key d) (some (S.row d)) k = _
    by_cases h : S.key d = k
    · subst h
      simp
    · rw [Function.update_of_ne (fun he => h he.symm), if_neg h]
      exact ih

omit [DecidableEq K] in
theorem foldl_retract (v : K → Option P) (ids : List I) (k : K) :
    ids.foldl S.retract v k = (v k).filter (fun p => S.rowId p ∉ ids) := by
  induction ids generalizing v with
  | nil =>
    rw [List.foldl_nil]
    cases v k <;> rfl
  | cons i rest ih =>
    rw [List.foldl_cons, ih, retract, Option.filter_filter]
    congr 1
    funext p
    by_cases h : S.rowId p = i <;> simp [h]

omit [DecidableEq I] in
theorem load_eq_some {items : List D} {k : K} {p : P} :
    S.load items k = some p ↔ ∃ d, lastWith S.key k items = some d ∧ S.row d = p := by
  rw [load, foldl_upsert]
  cases lastWith S.key k items with
  | none => simp
  | some d => simp

/-! ## What a mirror can hold -/

/-- The delta since the cursor, as far as the wanted items go. -/
structure Delta (f : Feed D I S.id) (want : D → Prop) (new gone : List D) : Prop where
  mem_new : ∀ d, d ∈ new ↔ d ∈ f.active ∧ S.id d ∈ f.pending ∧ want d
  gone_sub : ∀ g ∈ gone, g ∈ f.gone
  gone_all : ∀ g ∈ f.gone, want g → g ∈ gone

def Faithful (S : Shape D K I P) (f : Feed D I S.id) (want : D → Prop) (v : K → Option P) : Prop :=
  ∀ k, (v k).isSome = true ↔ ∃ d ∈ f.active, want d ∧ S.key d = k

/-- Every row stands for an active item of its key, and every active key has a row. -/
structure Current (S : Shape D K I P) (f : Feed D I S.id) (want : D → Prop) (v : K → Option P) : Prop where
  held : ∀ k p, v k = some p → ∃ d ∈ f.active, want d ∧ S.key d = k ∧ S.row d = p
  covered : ∀ d ∈ f.active, want d → (v (S.key d)).isSome = true

/-- What a current mirror keeps while the feed moves on. -/
structure Tracks (S : Shape D K I P) (f : Feed D I S.id) (want : D → Prop) (v : K → Option P) : Prop where
  held : ∀ k p, v k = some p → ∃ d ∈ f.active ++ f.gone, want d ∧ S.key d = k ∧ S.row d = p
  covered : ∀ d ∈ f.active, want d → S.id d ∉ f.pending → (v (S.key d)).isSome = true

/-- No row's item went while an older item of its key stays active and none of that key came. -/
def Unshadowed (S : Shape D K I P) (f : Feed D I S.id) (want : D → Prop) (v : K → Option P) : Prop :=
  ∀ k p, v k = some p → (∃ g ∈ f.gone, S.id g = S.rowId p) → (∃ d ∈ f.active, want d ∧ S.key d = k) →
    ∃ d ∈ f.active, S.id d ∈ f.pending ∧ want d ∧ S.key d = k

variable {f : Feed D I S.id} {want : D → Prop} {v : K → Option P}

omit [DecidableEq K] [DecidableEq I] in
theorem Current.faithful (h : S.Current f want v) : S.Faithful f want v := by
  intro k
  constructor
  · intro hk
    obtain ⟨p,hp⟩ := Option.isSome_iff_exists.mp hk
    obtain ⟨d,hd,hw,hkey,_⟩ := h.held k p hp
    exact ⟨d,hd,hw,hkey⟩
  · rintro ⟨d,hd,hw,rfl⟩
    exact h.covered d hd hw

omit [DecidableEq K] [DecidableEq I] in
theorem Current.tracks (h : S.Current f want v) {f' : Feed D I S.id} (hf : f'.active = f.active) :
    S.Tracks f' want v where
  held k p hp := by
    obtain ⟨d,hd,hrest⟩ := h.held k p hp
    exact ⟨d,List.mem_append_left _ (hf ▸ hd),hrest⟩
  covered d hd hw _ := h.covered d (hf ▸ hd) hw

omit [DecidableEq K] [DecidableEq I] in
theorem Tracks.add (h : S.Tracks f want v) {d : D} (hd : f.Unused d) : S.Tracks (f.add d hd) want v where
  held k p hp := by
    obtain ⟨e,he,hrest⟩ := h.held k p hp
    refine ⟨e,?_,hrest⟩
    rcases List.mem_append.mp he with he | he
    · exact List.mem_append_left _ (List.mem_append_left _ he)
    · exact List.mem_append_right _ he
  covered e he hw hpend := by
    rcases List.mem_append.mp he with he | he
    · exact h.covered e he hw (fun hm => hpend (List.mem_cons_of_mem _ hm))
    · rw [List.mem_singleton.mp he] at hpend
      exact absurd List.mem_cons_self hpend

omit [DecidableEq K] in
theorem Tracks.retire (h : S.Tracks f want v) (i : I) : S.Tracks (f.retire i) want v where
  held k p hp := by
    obtain ⟨e,he,hrest⟩ := h.held k p hp
    exact ⟨e,Feed.mem_retire_or.mpr he,hrest⟩
  covered e he hw hpend := h.covered e (Feed.mem_retire.mp he).1 hw hpend

omit [DecidableEq I] in
theorem current_load {items : List D} (hi : ∀ d, d ∈ items ↔ d ∈ f.active ∧ want d) :
    S.Current f want (S.load items) where
  held k p hp := by
    obtain ⟨d,hd,hrow⟩ := load_eq_some.mp hp
    obtain ⟨hmem,hkey⟩ := lastWith_some hd
    obtain ⟨ha,hw⟩ := (hi d).mp hmem
    exact ⟨d,ha,hw,hkey,hrow⟩
  covered d hd hw := by
    have hsome : (lastWith S.key (S.key d) items).isSome := lastWith_isSome.mpr ⟨d,(hi d).mpr ⟨hd,hw⟩,rfl⟩
    obtain ⟨e,he⟩ := Option.isSome_iff_exists.mp hsome
    exact Option.isSome_iff_exists.mpr ⟨S.row e,load_eq_some.mpr ⟨e,he,rfl⟩⟩

/-- An item that came is active, so what went does not drop its row again. -/
theorem replay_new {new gone : List D} (hdelta : Delta f want new gone) {k : K} {d : D}
    (hd : lastWith S.key k new = some d) : S.replay v new gone k = some (S.row d) := by
  rw [replay, foldl_retract, foldl_upsert, hd]
  have ha := ((hdelta.mem_new d).mp (lastWith_some hd).1).1
  have hno : S.id d ∉ gone.map S.id := by
    intro hm
    obtain ⟨g,hg,he⟩ := List.mem_map.mp hm
    exact f.disjoint d ha g (hdelta.gone_sub g hg) he.symm
  exact Option.filter_some_pos (by simpa [S.rowId_row] using hno)

theorem replay_old {new gone : List D} {k : K} (hk : lastWith S.key k new = none) :
    S.replay v new gone k = (v k).filter (fun p => S.rowId p ∉ gone.map S.id) := by
  rw [replay, foldl_retract, foldl_upsert, hk]

/-- A row that a delta leaves alone belongs to an item that is still active. -/
theorem replay_held (h : S.Tracks f want v) {new gone : List D} (hdelta : Delta f want new gone) {k : K} {p : P}
    (hp : S.replay v new gone k = some p) : ∃ d ∈ f.active, want d ∧ S.key d = k ∧ S.row d = p := by
  cases hl : lastWith S.key k new with
  | some d =>
    rw [replay_new hdelta hl] at hp
    obtain ⟨hmem,hkey⟩ := lastWith_some hl
    obtain ⟨ha,_,hw⟩ := (hdelta.mem_new d).mp hmem
    exact ⟨d,ha,hw,hkey,Option.some.inj hp⟩
  | none =>
    rw [replay_old hl] at hp
    obtain ⟨hv,hno⟩ := Option.filter_eq_some_iff.mp hp
    obtain ⟨d,hd,hw,hkey,hrow⟩ := h.held k p hv
    rcases List.mem_append.mp hd with hd | hd
    · exact ⟨d,hd,hw,hkey,hrow⟩
    · have hin : S.rowId p ∈ gone.map S.id :=
        List.mem_map.mpr ⟨d,hdelta.gone_all d hd hw,by rw [← hrow, S.rowId_row]⟩
      simp [hin] at hno

theorem current_replay (h : S.Tracks f want v) {new gone : List D} (hdelta : Delta f want new gone)
    (hu : S.Unshadowed f want v) : S.Current f want (S.replay v new gone) where
  held _ _ hp := replay_held h hdelta hp
  covered d hd hw := by
    cases hl : lastWith S.key (S.key d) new with
    | some e => rw [replay_new hdelta hl]; rfl
    | none =>
      have hnone : ∀ e ∈ f.active, S.id e ∈ f.pending → want e → S.key e ≠ S.key d := by
        intro e he hpend hwe hkey
        have := lastWith_isSome.mpr ⟨e,(hdelta.mem_new e).mpr ⟨he,hpend,hwe⟩,hkey⟩
        rw [hl] at this
        cases this
      obtain ⟨p,hp⟩ := Option.isSome_iff_exists.mp (h.covered d hd hw (fun hpend => hnone d hd hpend hw rfl))
      have hno : S.rowId p ∉ gone.map S.id := by
        intro hm
        obtain ⟨g,hg,he⟩ := List.mem_map.mp hm
        obtain ⟨e,he,hpend,hwe,hkey⟩ := hu _ p hp ⟨g,hdelta.gone_sub g hg,he⟩ ⟨d,hd,hw,rfl⟩
        exact hnone e he hpend hwe hkey
      rw [replay_old hl, hp, Option.filter_some_pos (by simpa using hno)]
      rfl

/-- After a delta the mirror is faithful exactly when no row was shadowed. -/
theorem faithful_replay_iff (h : S.Tracks f want v) {new gone : List D} (hdelta : Delta f want new gone) :
    S.Faithful f want (S.replay v new gone) ↔ S.Unshadowed f want v := by
  constructor
  · rintro hf k p hp ⟨g,hg,hid⟩ hact
    obtain ⟨q,hq⟩ := Option.isSome_iff_exists.mp ((hf k).mpr hact)
    cases hl : lastWith S.key k new with
    | some d =>
      obtain ⟨hmem,hkey⟩ := lastWith_some hl
      obtain ⟨ha,hpend,hw⟩ := (hdelta.mem_new d).mp hmem
      exact ⟨d,ha,hpend,hw,hkey⟩
    | none =>
      -- the row was kept, so its item is active, yet it went
      obtain ⟨d,hd,_,_,hrow⟩ := replay_held h hdelta hq
      rw [replay_old hl] at hq
      have hpq : p = q := Option.some.inj (hp ▸ (Option.filter_eq_some_iff.mp hq).1)
      rw [hpq, ← hrow, S.rowId_row] at hid
      exact absurd hid.symm (f.disjoint d hd g hg)
  · exact fun hu => (current_replay h hdelta hu).faithful

/-! ## Distinct keys -/

def KeysDistinct (S : Shape D K I P) (f : Feed D I S.id) (want : D → Prop) : Prop :=
  ∀ d ∈ f.active, ∀ e ∈ f.active, want d → want e → S.key d = S.key e → d = e

def Exact (S : Shape D K I P) (f : Feed D I S.id) (want : D → Prop) (v : K → Option P) : Prop :=
  ∀ k p, v k = some p ↔ ∃ d ∈ f.active, want d ∧ S.key d = k ∧ S.row d = p

/-- What an exact mirror keeps while the feed moves on. -/
structure Mirrors (S : Shape D K I P) (f : Feed D I S.id) (want : D → Prop) (v : K → Option P) : Prop where
  held : ∀ k p, v k = some p → ∃ d ∈ f.active ++ f.gone, want d ∧ S.key d = k ∧ S.row d = p
  exact_old : ∀ d ∈ f.active, want d → S.id d ∉ f.pending → v (S.key d) = some (S.row d)

omit [DecidableEq K] [DecidableEq I] in
theorem Mirrors.tracks (h : S.Mirrors f want v) : S.Tracks f want v where
  held := h.held
  covered d hd hw hp := Option.isSome_iff_exists.mpr ⟨_,h.exact_old d hd hw hp⟩

omit [DecidableEq K] [DecidableEq I] in
theorem Exact.faithful (h : S.Exact f want v) : S.Faithful f want v := by
  intro k
  rw [Option.isSome_iff_exists]
  simp only [h k]
  exact ⟨fun ⟨_,d,hd,hw,hk,_⟩ => ⟨d,hd,hw,hk⟩,fun ⟨d,hd,hw,hk⟩ => ⟨_,d,hd,hw,hk,rfl⟩⟩

omit [DecidableEq K] [DecidableEq I] in
theorem Exact.mirrors (h : S.Exact f want v) {f' : Feed D I S.id} (hf : f'.active = f.active) :
    S.Mirrors f' want v where
  held k p hp := by
    obtain ⟨d,hd,hrest⟩ := (h k p).mp hp
    exact ⟨d,List.mem_append_left _ (hf ▸ hd),hrest⟩
  exact_old d hd hw _ := (h _ _).mpr ⟨d,hf ▸ hd,hw,rfl,rfl⟩

omit [DecidableEq K] [DecidableEq I] in
theorem Mirrors.add (h : S.Mirrors f want v) {d : D} (hd : f.Unused d) : S.Mirrors (f.add d hd) want v where
  held := (h.tracks.add hd).held
  exact_old e he hw hpend := by
    rcases List.mem_append.mp he with he | he
    · exact h.exact_old e he hw (fun hm => hpend (List.mem_cons_of_mem _ hm))
    · rw [List.mem_singleton.mp he] at hpend
      exact absurd List.mem_cons_self hpend

omit [DecidableEq K] in
theorem Mirrors.retire (h : S.Mirrors f want v) (i : I) : S.Mirrors (f.retire i) want v where
  held := (h.tracks.retire i).held
  exact_old e he hw hpend := h.exact_old e (Feed.mem_retire.mp he).1 hw hpend

omit [DecidableEq K] [DecidableEq I] in
/-- Among distinct keys a current mirror has no choice of row. -/
theorem Current.exact (h : S.Current f want v) (hk : S.KeysDistinct f want) : S.Exact f want v := by
  intro k p
  constructor
  · exact h.held k p
  · rintro ⟨d,hd,hw,rfl,rfl⟩
    obtain ⟨q,hq⟩ := Option.isSome_iff_exists.mp (h.covered d hd hw)
    obtain ⟨e,he,hwe,hkey,rfl⟩ := h.held _ q hq
    rw [hq, hk e he d hd hwe hw hkey]

omit [DecidableEq K] [DecidableEq I] in
theorem Mirrors.unshadowed (h : S.Mirrors f want v) : S.Unshadowed f want v := by
  rintro k p hp ⟨g,hg,hid⟩ ⟨d,hd,hw,rfl⟩
  by_cases hpend : S.id d ∈ f.pending
  · exact ⟨d,hd,hpend,hw,rfl⟩
  · rw [h.exact_old d hd hw hpend] at hp
    rw [← Option.some.inj hp, S.rowId_row] at hid
    exact absurd hid.symm (f.disjoint d hd g hg)

theorem Mirrors.exact_replay (h : S.Mirrors f want v) (hk : S.KeysDistinct f want) {new gone : List D}
    (hdelta : Delta f want new gone) : S.Exact f want (S.replay v new gone) :=
  (current_replay h.tracks hdelta h.unshadowed).exact hk

/-- When more is delivered than is wanted, the mirror stays faithful only if nothing unwanted comes. -/
theorem want_of_faithful_replay {served : D → Prop} (hws : ∀ d, want d → served d)
    (hk : S.KeysDistinct f served) {new gone : List D} (hdelta : Delta f served new gone)
    (hf : S.Faithful f want (S.replay v new gone)) : ∀ d ∈ new, want d := by
  intro d hd
  obtain ⟨hda,_,hds⟩ := (hdelta.mem_new d).mp hd
  have hsome : (lastWith S.key (S.key d) new).isSome := lastWith_isSome.mpr ⟨d,hd,rfl⟩
  obtain ⟨e,he⟩ := Option.isSome_iff_exists.mp hsome
  have hrow : (S.replay v new gone (S.key d)).isSome = true := by
    rw [replay_new hdelta he]
    rfl
  obtain ⟨x,hxa,hxw,hkey⟩ := (hf (S.key d)).mp hrow
  rw [← hk x hxa d hda (hws x hxw) hds hkey]
  exact hxw

end Shape
end Foundation
