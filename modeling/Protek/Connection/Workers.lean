import Protek.Connection.Save
import Protek.Foundation.ReadModifyWrite

/-! # Two saves in two workers

Each worker has its own environment. A save reads the file and the setting and writes
them back whole; the other workers reload when the file has another modification time
than the one they have seen.
-/
namespace Protek.Connection
open Foundation Foundation.PyText Foundation.LineEdit Foundation.Json
open ReadModifyWrite (Caller)

/-- How far one call of `save` has got. -/
inductive SaveCall
  | idle
  | prepared (text : String) (mtime : ℕ)
  | keyed (text : String) (mtime : ℕ) (setting : Option String)
  | recorded (text : String) (mtime : ℕ)
  | applied (text : String) (mtime : ℕ)
  | returned

/-- How far one call of `sync_from_file` has got. -/
inductive SyncCall
  | idle
  | changed
  | keyed (keys : List String)
  | loaded (keys : List String) (fileVals : String → Option String)

/-- The file has a text and a modification time; `seen` is `_seen_mtime`. -/
structure Shared (ω κ : Type*) where
  file : Option (String × ℕ)
  setting : Option String
  environ : ω → Env
  saves : Caller → SaveCall
  seen : κ → Option ℕ
  syncs : κ → SyncCall

inductive SharedAction (κ : Type*)
  | prepare (c : Caller) (mtime : ℕ)
  | readKeys (c : Caller)
  | writeKeys (c : Caller)
  | setEnviron (c : Caller)
  | replace (c : Caller)
  | stat (k : κ)
  | syncKeys (k : κ)
  | syncFile (k : κ)
  | syncEnviron (k : κ)

/-- The saved keys that the file has go into the environment, unless their value has a NUL. -/
def snapped (keys : List String) (fileVals : String → Option String) (env : Env) : Env := fun k =>
  if k ∈ keys then
    match fileVals k with
    | some v => if '\x00' ∈ v.toList then env k else some v
    | none => env k
  else env k

section
variable {ω κ : Type*} [DecidableEq ω] [DecidableEq κ]

def Shared.content (s : Shared ω κ) : Option String := s.file.map Prod.fst

def Shared.putSave (s : Shared ω κ) (c : Caller) (p : SaveCall) : Shared ω κ := { s with saves := Function.update s.saves c p }

def Shared.putSync (s : Shared ω κ) (k : κ) (p : SyncCall) : Shared ω κ := { s with syncs := Function.update s.syncs k p }

def Shared.putEnviron (s : Shared ω κ) (o : ω) (env : Env) : Shared ω κ := { s with environ := Function.update s.environ o env }

/-- A consumer looks at the modification time, and goes on where it is another one. -/
def Shared.statted (s : Shared ω κ) (k : κ) : Shared ω κ :=
  match s.file with
  | none => s
  | some f => if s.seen k = some f.2 then s else { s.putSync k .changed with seen := Function.update s.seen k (some f.2) }

variable (values : Caller → Values) (site : Caller → ω) (worker : κ → ω) (dotenv : String → String → Option String)

/-- One step of a save that does not raise, or of a consumer's sync. -/
inductive SharedStep : Shared ω κ → SharedAction κ → Shared ω κ → Prop
  | prepare {s : Shared ω κ} {c : Caller} {mtime : ℕ} (h : s.saves c = .idle) :
      SharedStep s (.prepare c mtime) (s.putSave c (.prepared (prepareEnv (values c) s.content) mtime))
  | readKeys {s : Shared ω κ} {c : Caller} {text : String} {mtime : ℕ} (h : s.saves c = .prepared text mtime) :
      SharedStep s (.readKeys c) (s.putSave c (.keyed text mtime s.setting))
  | writeKeys {s : Shared ω κ} {c : Caller} {text : String} {mtime : ℕ} {old : Option String}
      (h : s.saves c = .keyed text mtime old) :
      SharedStep s (.writeKeys c) { s.putSave c (.recorded text mtime) with setting := some (keysText old (values c)) }
  | setEnviron {s : Shared ω κ} {c : Caller} {text : String} {mtime : ℕ} (h : s.saves c = .recorded text mtime)
      (hnul : ∀ p ∈ values c, '\x00' ∉ p.2.toList) :
      SharedStep s (.setEnviron c)
        ((s.putEnviron (site c) (putAll (s.environ (site c)) (values c))).putSave c (.applied text mtime))
  | replace {s : Shared ω κ} {c : Caller} {text : String} {mtime : ℕ} (h : s.saves c = .applied text mtime) :
      SharedStep s (.replace c) { s.putSave c .returned with file := some (text,mtime) }
  | stat {s : Shared ω κ} {k : κ} (h : s.syncs k = .idle) : SharedStep s (.stat k) (s.statted k)
  | syncKeys {s : Shared ω κ} {k : κ} (h : s.syncs k = .changed) :
      SharedStep s (.syncKeys k) (s.putSync k (if savedKeys s.setting = [] then .idle else .keyed (savedKeys s.setting)))
  | syncFile {s : Shared ω κ} {k : κ} {keys : List String} (h : s.syncs k = .keyed keys) :
      SharedStep s (.syncFile k) (s.putSync k (.loaded keys (fun name => s.content.bind (fun text => dotenv text name))))
  | syncEnviron {s : Shared ω κ} {k : κ} {keys : List String} {fileVals : String → Option String}
      (h : s.syncs k = .loaded keys fileVals) :
      SharedStep s (.syncEnviron k)
        ((s.putEnviron (worker k) (snapped keys fileVals (s.environ (worker k)))).putSync k .idle)

end

/-! ## What a save makes of the file and of the setting -/

/-- Each key has one line, with its value between quotes. -/
def Defined (values : Values) (content : Option String) : Prop :=
  ∀ p ∈ values, ∃ line, (fileLines content).filter (fun l => lineKey l = some p.1) = [line] ∧ quotedValue line = some p.2

/-- Connection keys with values that fit between the quotes; `literal` are the texts that dotenv takes as they are. -/
structure Saveable (literal : String → Prop) (values : Values) : Prop where
  dict : (values.map Prod.fst).Nodup
  keys : ∀ p ∈ values, p.1 ∈ managed
  safe : ∀ p ∈ values, Safe p.2
  literal : ∀ p ∈ values, literal p.2

section
variable {literal : String → Prop} {values others : Values} {content : Option String}

theorem defined_nil : Defined [] content := fun _ hp => absurd hp List.not_mem_nil

theorem Saveable.savedCleanly (h : Saveable literal values) (hne : values ≠ []) :
    SavedCleanly values content (some (prepareEnv values content)) := by
  have hclean := (@savedCleanly_iff values content h.dict (fun p hp => isKey_of_managed (h.keys p hp))).mpr h.safe
  rwa [savedFile, if_neg hne] at hclean

/-- A key that is not saved keeps its lines. -/
theorem filter_key_prepareEnv (h : Saveable literal values) (hne : values ≠ []) {k : String} (hk : k ∉ values.map Prod.fst) :
    (fileLines (some (prepareEnv values content))).filter (fun l => lineKey l = some k) =
      (fileLines content).filter (fun l => lineKey l = some k) := by
  have hother : ∀ l : List String, l.filter (fun l => lineKey l = some k) =
      (l.filter (fun l => !ours lineKey (values.map Prod.fst) l)).filter (fun l => lineKey l = some k) := by
    intro l
    rw [List.filter_filter]
    refine List.filter_congr (fun line _ => ?_)
    by_cases hline : lineKey line = some k
    · simp only [hline, ours, Option.any_some, hk, decide_true, decide_false, Bool.not_false, Bool.and_true]
    · simp only [hline, decide_false, Bool.false_and]
  rw [hother, (h.savedCleanly hne).others, ← hother]

theorem Defined.prepareEnv (hothers : Defined others content) (h : Saveable literal values) (hne : values ≠ [])
    (hdisjoint : ∀ k ∈ others.map Prod.fst, k ∉ values.map Prod.fst) :
    Defined others (some (prepareEnv values content)) := by
  intro p hp
  rw [filter_key_prepareEnv h hne (hdisjoint _ (List.mem_map_of_mem hp))]
  exact hothers p hp

theorem mem_fileLines_prepareEnv (h : Saveable literal values) (hne : values ≠ []) {line : String}
    (hline : line ∈ fileLines (some (prepareEnv values content))) :
    line ∈ fileLines content ∨ ∃ p ∈ values, line = p.1 ++ "=" ++ quote p.2 := by
  rw [fileLines_prepareEnv h.dict (fun p hp => isKey_of_managed (h.keys p hp)) h.safe hne] at hline
  rcases mem_edit hline with hold | ⟨k,hk,rfl⟩
  · exact Or.inl hold
  · obtain ⟨p,hp,rfl⟩ := List.mem_map.mp hk
    exact Or.inr ⟨p,hp,envLine_of_mem h.dict hp⟩

end

/-! ## Saves that do not overlap -/

/-- The temporary file of a call that is under way. -/
def SaveCall.temp : SaveCall → Option (String × ℕ)
  | .idle => none
  | .prepared text mtime => some (text,mtime)
  | .keyed text mtime _ => some (text,mtime)
  | .recorded text mtime => some (text,mtime)
  | .applied text mtime => some (text,mtime)
  | .returned => none

def KeysIn (values : Values) (setting : Option String) : Prop := ∀ p ∈ values, p.1 ∈ savedKeys setting

def NoNul (values : Values) : Prop := ∀ p ∈ values, '\x00' ∉ p.2.toList

/-- What a call has read is what is there, and what it has written is still there. -/
def Sound (values : Values) (content setting : Option String) : SaveCall → Prop
  | .idle => values ≠ []
  | .prepared text _ => values ≠ [] ∧ text = prepareEnv values content
  | .keyed text _ old => values ≠ [] ∧ text = prepareEnv values content ∧ old = setting
  | .recorded text _ => values ≠ [] ∧ text = prepareEnv values content ∧ KeysIn values setting
  | .applied text _ => values ≠ [] ∧ text = prepareEnv values content ∧ KeysIn values setting ∧ NoNul values
  | .returned => Defined values content ∧ KeysIn values setting ∧ NoNul values

structure Serial (values : Caller → Values) (content setting : Option String) (saves : Caller → SaveCall) : Prop where
  sound : ∀ c, Sound (values c) content setting (saves c)
  alone : ∀ c, (saves c).temp ≠ none → (saves c.other).temp = none

section
variable {values : Caller → Values} {literal : String → Prop} {content setting : Option String} {saves : Caller → SaveCall}

theorem serial_put {c : Caller} {p : SaveCall} (hp : Sound (values c) content setting p)
    (hother : Sound (values c.other) content setting (saves c.other)) (halone : p.temp ≠ none → (saves c.other).temp = none) :
    Serial values content setting (Function.update saves c p) := by
  have hself : Function.update saves c p c = p := Function.update_self ..
  have hkeep : Function.update saves c p c.other = saves c.other := Function.update_of_ne c.other_ne ..
  have hback : c.other.other = c := by cases c <;> rfl
  constructor
  · refine c.forall_iff.mpr ⟨?_,?_⟩
    · rwa [hself]
    · rwa [hkeep]
  · refine c.forall_iff.mpr ⟨?_,?_⟩
    · rwa [hself, hkeep]
    · rw [hback, hkeep, hself]
      intro hactive
      by_contra hne
      exact hactive (halone hne)

theorem keysIn_keysText {saved : Values} (h : Saveable literal saved) {old : Option String} :
    KeysIn saved (some (keysText old saved)) :=
  fun p hp => mem_savedKeys_keysText.mpr ⟨Or.inr (List.mem_map_of_mem hp),h.keys p hp⟩

theorem Sound.keysText {saved others : Values} {p : SaveCall} (h : Sound saved content setting p) (hquiet : p.temp = none)
    (hkeys : ∀ q ∈ saved, q.1 ∈ managed) : Sound saved content (some (keysText setting others)) p := by
  cases p with
  | idle => exact h
  | returned =>
    obtain ⟨hdefined,hin,hnul⟩ := h
    exact ⟨hdefined,fun q hq => mem_savedKeys_keysText.mpr ⟨Or.inl (hin q hq),hkeys q hq⟩,hnul⟩
  | prepared _ _ => cases hquiet
  | keyed _ _ _ => cases hquiet
  | recorded _ _ => cases hquiet
  | applied _ _ => cases hquiet

theorem Sound.prepareEnv {saved others : Values} {p : SaveCall} (h : Sound others content setting p) (hquiet : p.temp = none)
    (hsaved : Saveable literal saved) (hne : saved ≠ []) (hdisjoint : ∀ k ∈ others.map Prod.fst, k ∉ saved.map Prod.fst) :
    Sound others (some (prepareEnv saved content)) setting p := by
  cases p with
  | idle => exact h
  | returned =>
    obtain ⟨hdefined,hin,hnul⟩ := h
    exact ⟨hdefined.prepareEnv hsaved hne hdisjoint,hin,hnul⟩
  | prepared _ _ => cases hquiet
  | keyed _ _ _ => cases hquiet
  | recorded _ _ => cases hquiet
  | applied _ _ => cases hquiet

end

/-! ## Two saves and the consumers -/

section
variable {ω κ : Type*}

def Shared.Finished (s : Shared ω κ) : Prop := ∀ c, s.saves c = .returned

/-- No call is under way yet; a call without values returns at once. -/
def Opening (values : Caller → Values) (s : Shared ω κ) : Prop := ∀ c, s.saves c = if values c = [] then .returned else .idle

/-- A save prepares its file while the other one is not under way, and replaces the file by one whose
modification time no consumer has seen. -/
structure Apart (t : Transition (Shared ω κ) (SharedAction κ)) : Prop where
  alone : ∀ c mtime, t.label = .prepare c mtime → (t.before.saves c.other).temp = none
  fresh : ∀ c f, t.label = .replace c → (t.before.saves c).temp = some f → ∀ k, t.before.seen k ≠ some f.2

/-- dotenv reads a file of ordinary lines as the lines are written. -/
structure ReadsLines (dotenv : String → String → Option String) (ordinary literal : String → Prop) : Prop where
  reads : ∀ text k line v, (∀ l ∈ textLines text, ordinary l) → (textLines text).filter (fun l => lineKey l = some k) = [line] →
    quotedValue line = some v → literal v → dotenv text k = some v
  quoted : ∀ k v, IsKey k → Safe v → literal v → ordinary (k ++ "=" ++ quote v)

def Holds (values : Caller → Values) (env : Env) : Prop := ∀ c, ∀ p ∈ values c, env p.1 = some p.2

/-- A consumer that has seen the file reads it with the keys of both saves. -/
def ReadsFile (dotenv : String → String → Option String) (s : Shared ω κ) (text : String) : SyncCall → Prop
  | .idle => True
  | .changed => True
  | .keyed keys => keys = savedKeys s.setting
  | .loaded keys fileVals => keys = savedKeys s.setting ∧ fileVals = dotenv text

/-- The file is final: a worker whose consumers have all seen it and are done has every value. -/
structure Current (values : Caller → Values) (worker : κ → ω) (dotenv : String → String → Option String) (s : Shared ω κ)
    (f : String × ℕ) : Prop where
  file : s.file = some f
  reads : ∀ k, s.seen k = some f.2 → ReadsFile dotenv s f.1 (s.syncs k)
  reach : ∀ k, (∃ j, worker j = worker k ∧ ¬ (s.syncs j = .idle ∧ s.seen j = some f.2)) ∨ Holds values (s.environ (worker k))

structure SavesKept (values : Caller → Values) (worker : κ → ω) (dotenv : String → String → Option String) (ordinary : String → Prop)
    (s : Shared ω κ) : Prop where
  serial : Serial values s.content s.setting s.saves
  ordinary : ∀ l ∈ fileLines s.content, ordinary l
  current : s.Finished → (∃ c, values c ≠ []) → ∃ f, Current values worker dotenv s f

variable {values : Caller → Values} {site : Caller → ω} {worker : κ → ω} {dotenv : String → String → Option String}
  {ordinary literal : String → Prop} {s : Shared ω κ}

/-- A step of a save other than the last one. -/
theorem SavesKept.putSave {t : Shared ω κ} {c : Caller} {p : SaveCall} (h : SavesKept values worker dotenv ordinary s)
    (hsaves : t.saves = Function.update s.saves c p) (hfile : t.file = s.file) (hp : p ≠ .returned)
    (hserial : Serial values t.content t.setting t.saves) : SavesKept values worker dotenv ordinary t := by
  refine ⟨hserial,?_,fun hfinished => ?_⟩
  · have hcontent : t.content = s.content := congrArg (Option.map Prod.fst) hfile
    rw [hcontent]
    exact h.ordinary
  · have hc := hfinished c
    rw [hsaves, Function.update_self] at hc
    exact absurd hc hp

/-- The last step of the last save. -/
theorem savesKept_replace {t : Shared ω κ} {f : String × ℕ} (hfile : t.file = some f)
    (hserial : Serial values t.content t.setting t.saves) (hordinary : ∀ l ∈ fileLines t.content, ordinary l)
    (hfresh : ∀ k, t.seen k ≠ some f.2) : SavesKept values worker dotenv ordinary t := by
  refine ⟨hserial,hordinary,fun _ _ => ⟨f,hfile,fun k hk => absurd hk (hfresh k),fun k => ?_⟩⟩
  exact Or.inl ⟨k,rfl,fun hquiet => hfresh k hquiet.2⟩

/-- A step of the consumer `k`, once the saves have returned. -/
theorem Current.update [DecidableEq κ] {t : Shared ω κ} {f : String × ℕ} {k : κ} {p : SyncCall}
    (h : Current values worker dotenv s f) (hfile : t.file = s.file) (hsetting : t.setting = s.setting)
    (hseen : ∀ j, j ≠ k → t.seen j = s.seen j) (hsyncs : t.syncs = Function.update s.syncs k p)
    (henv : ∀ o, o ≠ worker k → t.environ o = s.environ o) (hreads : t.seen k = some f.2 → ReadsFile dotenv t f.1 p)
    (hreach : ¬ (p = .idle ∧ t.seen k = some f.2) ∨ Holds values (t.environ (worker k))) :
    Current values worker dotenv t f := by
  have hself : t.syncs k = p := by rw [hsyncs, Function.update_self]
  have hother : ∀ j, j ≠ k → t.syncs j = s.syncs j := by
    intro j hj
    rw [hsyncs, Function.update_of_ne hj]
  refine ⟨hfile.trans h.file,fun j hj => ?_,fun j => ?_⟩
  · rcases eq_or_ne j k with rfl | hne
    · rw [hself]
      exact hreads hj
    · rw [hseen j hne] at hj
      have hread := h.reads j hj
      rw [hother j hne]
      cases hsync : s.syncs j <;> rw [hsync] at hread
      · trivial
      · trivial
      · exact hread.trans (congrArg savedKeys hsetting.symm)
      · exact ⟨hread.1.trans (congrArg savedKeys hsetting.symm),hread.2⟩
  · by_cases hsame : worker j = worker k
    · rw [hsame]
      rw [← hself] at hreach
      exact hreach.imp_left (fun hquiet => ⟨k,rfl,hquiet⟩)
    · rcases h.reach j with ⟨i,hi,hquiet⟩ | hholds
      · have hne : i ≠ k := fun heq => hsame (hi.symm.trans (congrArg worker heq))
        exact Or.inl ⟨i,hi,by rwa [hother i hne, hseen i hne]⟩
      · rw [henv _ hsame]
        exact Or.inr hholds

/-- The keys and the values that a consumer takes from the final file give every value. -/
theorem holds_snapped {text : String} {env : Env} (hdotenv : ReadsLines dotenv ordinary literal)
    (hsaved : ∀ c, Saveable literal (values c)) (hordinary : ∀ l ∈ fileLines (some text), ordinary l)
    (hsound : ∀ c, Sound (values c) (some text) s.setting .returned) :
    Holds values (snapped (savedKeys s.setting) (dotenv text) env) := by
  intro c p hp
  obtain ⟨hdefined,hin,hnul⟩ := hsound c
  obtain ⟨line,hline,hvalue⟩ := hdefined p hp
  have hread : dotenv text p.1 = some p.2 := hdotenv.reads text p.1 line p.2 hordinary hline hvalue ((hsaved c).literal p hp)
  unfold snapped
  rw [if_pos (hin p hp), hread]
  exact if_neg (hnul p hp)

theorem statted_eq {f : String × ℕ} {k : κ} [DecidableEq κ] (hfile : s.file = some f) : s.statted k =
    if s.seen k = some f.2 then s else { s.putSync k .changed with seen := Function.update s.seen k (some f.2) } := by
  unfold Shared.statted
  rw [hfile]

theorem SavesKept.sync {t : Shared ω κ} (h : SavesKept values worker dotenv ordinary s) (hfile : t.file = s.file)
    (hsetting : t.setting = s.setting) (hsaves : t.saves = s.saves)
    (hcurrent : s.Finished → ∀ f, Current values worker dotenv s f → Current values worker dotenv t f) :
    SavesKept values worker dotenv ordinary t := by
  have hcontent : t.content = s.content := congrArg (Option.map Prod.fst) hfile
  refine ⟨?_,?_,fun hfinished hne => ?_⟩
  · rw [hcontent, hsetting, hsaves]
    exact h.serial
  · rw [hcontent]
    exact h.ordinary
  · have hs : s.Finished := by
      intro c
      rw [← hsaves]
      exact hfinished c
    obtain ⟨f,hf⟩ := h.current hs hne
    exact ⟨f,hcurrent hs f hf⟩

theorem statted_kept [DecidableEq κ] (s : Shared ω κ) (k : κ) :
    (s.statted k).file = s.file ∧ (s.statted k).setting = s.setting ∧ (s.statted k).saves = s.saves := by
  unfold Shared.statted
  split
  · exact ⟨rfl,rfl,rfl⟩
  · split <;> exact ⟨rfl,rfl,rfl⟩

variable [DecidableEq ω] [DecidableEq κ]

/-- A consumer's step keeps what is known of the final file. -/
theorem Current.step {t : Shared ω κ} {a : SharedAction κ} {f : String × ℕ} (h : Current values worker dotenv s f)
    (hdotenv : ReadsLines dotenv ordinary literal) (hsaved : ∀ c, Saveable literal (values c)) (hkept : SavesKept values worker dotenv ordinary s)
    (hfinished : s.Finished) (hs : SharedStep values site worker dotenv s a t) : Current values worker dotenv t f := by
  have hsound : ∀ c, Sound (values c) (some f.1) s.setting .returned := by
    intro c
    have hc := hkept.serial.sound c
    rwa [hfinished c, Shared.content, h.file] at hc
  cases hs with
  | prepare hc => cases hc.symm.trans (hfinished _)
  | readKeys hc => cases hc.symm.trans (hfinished _)
  | writeKeys hc => cases hc.symm.trans (hfinished _)
  | setEnviron hc _ => cases hc.symm.trans (hfinished _)
  | replace hc => cases hc.symm.trans (hfinished _)
  | @stat k hk =>
    rw [statted_eq h.file]
    split
    · exact h
    · exact h.update rfl rfl (fun j hj => Function.update_of_ne hj ..) rfl (fun _ _ => rfl) (fun _ => trivial)
        (Or.inl (fun hquiet => SyncCall.noConfusion hquiet.1))
  | @syncKeys k hk =>
    by_cases hnone : savedKeys s.setting = []
    · rw [if_pos hnone]
      refine h.update rfl rfl (fun _ _ => rfl) rfl (fun _ _ => rfl) (fun _ => trivial) (Or.inr (fun c p hp => ?_))
      obtain ⟨-,hin,-⟩ := hsound c
      have hkey := hin p hp
      rw [hnone] at hkey
      exact absurd hkey List.not_mem_nil
    · rw [if_neg hnone]
      exact h.update rfl rfl (fun _ _ => rfl) rfl (fun _ _ => rfl) (fun _ => rfl)
        (Or.inl (fun hquiet => SyncCall.noConfusion hquiet.1))
  | @syncFile k keys hk =>
    have hcontent : s.content = some f.1 := congrArg (Option.map Prod.fst) h.file
    rw [hcontent]
    refine h.update rfl rfl (fun _ _ => rfl) rfl (fun _ _ => rfl) (fun hseen => ⟨?_,rfl⟩)
      (Or.inl (fun hquiet => SyncCall.noConfusion hquiet.1))
    have hread := h.reads k hseen
    rwa [hk] at hread
  | @syncEnviron k keys fileVals hk =>
    refine h.update rfl rfl (fun _ _ => rfl) rfl (fun o ho => Function.update_of_ne ho ..) (fun _ => trivial) ?_
    by_cases hseen : s.seen k = some f.2
    · right
      have hread := h.reads k hseen
      rw [hk] at hread
      obtain ⟨rfl,rfl⟩ := hread
      have hordinary : ∀ l ∈ fileLines (some f.1), ordinary l := by
        have hall := hkept.ordinary
        rwa [Shared.content, h.file] at hall
      change Holds values (Function.update s.environ (worker k) _ (worker k))
      rw [Function.update_self]
      exact holds_snapped hdotenv hsaved hordinary hsound
    · exact Or.inl (fun hquiet => hseen hquiet.2)

/-- A step of saves that do not overlap keeps what the calls rely on. -/
theorem SavesKept.step {t : Transition (Shared ω κ) (SharedAction κ)} (h : SavesKept values worker dotenv ordinary t.before)
    (hdotenv : ReadsLines dotenv ordinary literal) (hsaved : ∀ c, Saveable literal (values c))
    (hdisjoint : ∀ c, ∀ k ∈ (values c).map Prod.fst, k ∉ (values c.other).map Prod.fst) (hapart : Apart t)
    (hs : SharedStep values site worker dotenv t.before t.label t.after) : SavesKept values worker dotenv ordinary t.after := by
  obtain ⟨s,a,u⟩ := t
  dsimp only at h hs ⊢
  have hsound := h.serial.sound
  have halone := h.serial.alone
  have hstep := hs
  cases hs with
  | @prepare c mtime hc =>
    have hone := hsound c
    rw [hc] at hone
    exact h.putSave rfl rfl (by simp) (serial_put ⟨hone,rfl⟩ (hsound c.other) (fun _ => hapart.alone c mtime rfl))
  | @readKeys c text mtime hc =>
    have hone := hsound c
    rw [hc] at hone
    exact h.putSave rfl rfl (by simp) (serial_put ⟨hone.1,hone.2,rfl⟩ (hsound c.other) (fun _ => halone c (by simp [hc, SaveCall.temp])))
  | @writeKeys c text mtime old hc =>
    have hone := hsound c
    rw [hc] at hone
    obtain ⟨hne,htext,rfl⟩ := hone
    have hquiet : (s.saves c.other).temp = none := halone c (by simp [hc, SaveCall.temp])
    exact h.putSave rfl rfl (by simp) (serial_put ⟨hne,htext,keysIn_keysText (hsaved c)⟩
      ((hsound c.other).keysText hquiet (hsaved c.other).keys) (fun _ => hquiet))
  | @setEnviron c text mtime hc hnul =>
    have hone := hsound c
    rw [hc] at hone
    obtain ⟨hne,htext,hkeys⟩ := hone
    exact h.putSave rfl rfl (by simp) (serial_put ⟨hne,htext,hkeys,hnul⟩ (hsound c.other)
      (fun _ => halone c (by simp [hc, SaveCall.temp])))
  | @replace c text mtime hc =>
    have hone := hsound c
    rw [hc] at hone
    obtain ⟨hne,rfl,hkeys,hnul⟩ := hone
    have hquiet : (s.saves c.other).temp = none := halone c (by simp [hc, SaveCall.temp])
    have hback : ∀ k ∈ (values c.other).map Prod.fst, k ∉ (values c).map Prod.fst :=
      fun k hk hmem => hdisjoint c k hmem hk
    refine savesKept_replace rfl (serial_put ⟨((hsaved c).savedCleanly hne).defined,hkeys,hnul⟩
      ((hsound c.other).prepareEnv hquiet (hsaved c) hne hback) (fun hnone => absurd rfl hnone)) (fun l hl => ?_)
      (hapart.fresh c _ rfl (by rw [hc]; rfl))
    rcases mem_fileLines_prepareEnv (hsaved c) hne hl with hold | ⟨p,hp,rfl⟩
    · exact h.ordinary l hold
    · exact hdotenv.quoted p.1 p.2 (isKey_of_managed ((hsaved c).keys p hp)) ((hsaved c).safe p hp) ((hsaved c).literal p hp)
  | @stat k hk =>
    obtain ⟨hfile,hsetting,hsaves⟩ := statted_kept s k
    exact h.sync hfile hsetting hsaves (fun hfinished f hf => hf.step hdotenv hsaved h hfinished hstep)
  | @syncKeys k hk =>
    exact h.sync rfl rfl rfl (fun hfinished f hf => hf.step hdotenv hsaved h hfinished hstep)
  | @syncFile k keys hk =>
    exact h.sync rfl rfl rfl (fun hfinished f hf => hf.step hdotenv hsaved h hfinished hstep)
  | @syncEnviron k keys fileVals hk =>
    exact h.sync rfl rfl rfl (fun hfinished f hf => hf.step hdotenv hsaved h hfinished hstep)

/-- In a run of saves that do not overlap, every state has what the calls rely on. -/
theorem savesKept_of_trace {ts : List (Transition (Shared ω κ) (SharedAction κ))} {s0 : Shared ω κ}
    (h : Trace (SharedStep values site worker dotenv) s0 ts s) (h0 : Opening values s0) (hdotenv : ReadsLines dotenv ordinary literal)
    (hsaved : ∀ c, Saveable literal (values c)) (hdisjoint : ∀ c, ∀ k ∈ (values c).map Prod.fst, k ∉ (values c.other).map Prod.fst)
    (hordinary : ∀ l ∈ fileLines s0.content, ordinary l) (hapart : ∀ t ∈ ts, Apart t) :
    SavesKept values worker dotenv ordinary s ∧
      ∀ t ∈ ts, SavesKept values worker dotenv ordinary t.before ∧ SavesKept values worker dotenv ordinary t.after := by
  refine h.invariant (C := Apart) ⟨⟨fun c => ?_,fun c hactive => ?_⟩,hordinary,fun hfinished hne => ?_⟩
    (fun t hs ht hkept => hkept.step hdotenv hsaved hdisjoint ht hs) hapart
  · rw [h0 c]
    by_cases hempty : values c = []
    · rw [if_pos hempty, hempty]
      exact ⟨defined_nil,fun p hp => absurd hp List.not_mem_nil,fun p hp => absurd hp List.not_mem_nil⟩
    · rw [if_neg hempty]
      exact hempty
  · rw [h0 c] at hactive
    split at hactive <;> exact absurd rfl hactive
  · obtain ⟨c,hc⟩ := hne
    have hreturned := hfinished c
    rw [h0 c, if_neg hc] at hreturned
    cases hreturned

/-- A consumer has looked at the file after both saves have returned, and is done. -/
def Synced (ts : List (Transition (Shared ω κ) (SharedAction κ))) (s : Shared ω κ) (k : κ) : Prop :=
  s.syncs k = .idle ∧ ∃ t ∈ ts, t.label = .stat k ∧ t.before.Finished

/-- What a consumer sees once the saves have returned, it has seen to the end. -/
theorem seen_of_synced {ts : List (Transition (Shared ω κ) (SharedAction κ))} {s0 : Shared ω κ} {k : κ}
    (h : Trace (SharedStep values site worker dotenv) s0 ts s)
    (hkept : ∀ t ∈ ts, t.before.Finished → ∃ f, t.before.file = some f) (hsync : Synced ts s k) :
    ∃ f, s.file = some f ∧ s.seen k = some f.2 := by
  obtain ⟨-,t,ht,hlabel,hfinished⟩ := hsync
  obtain ⟨f,hfile⟩ := hkept t ht hfinished
  have hstep := h.mem_step t ht
  obtain ⟨front,back,rfl⟩ := List.append_of_mem ht
  have hback := h.drop
  obtain ⟨u,a,v⟩ := t
  dsimp only at hlabel hfinished hfile hstep hback
  subst hlabel
  have hv : v.Finished ∧ v.file = some f ∧ v.seen k = some f.2 := by
    cases hstep with
    | stat hk =>
      obtain ⟨hsame,-,hsaves⟩ := statted_kept u k
      refine ⟨fun c => (congrFun hsaves c).trans (hfinished c),hsame.trans hfile,?_⟩
      rw [statted_eq hfile]
      split
      · assumption
      · exact Function.update_self ..
  have hkeep := hback.always (I := fun w => w.Finished ∧ w.file = some f ∧ w.seen k = some f.2) hv (fun t hs ht => ?_)
  · exact ⟨f,hkeep.1.2⟩
  · obtain ⟨w,a,x⟩ := t
    dsimp only at hs ht ⊢
    obtain ⟨hdone,hfile,hseen⟩ := ht
    cases hs with
    | prepare hc => cases hc.symm.trans (hdone _)
    | readKeys hc => cases hc.symm.trans (hdone _)
    | writeKeys hc => cases hc.symm.trans (hdone _)
    | setEnviron hc _ => cases hc.symm.trans (hdone _)
    | replace hc => cases hc.symm.trans (hdone _)
    | @stat j hj =>
      obtain ⟨hsame,-,hsaves⟩ := statted_kept w j
      refine ⟨fun c => (congrFun hsaves c).trans (hdone c),hsame.trans hfile,?_⟩
      rw [statted_eq hfile]
      split
      · exact hseen
      · rcases eq_or_ne k j with rfl | hne
        · exact Function.update_self ..
        · exact (Function.update_of_ne hne ..).trans hseen
    | syncKeys _ => exact ⟨hdone,hfile,hseen⟩
    | syncFile _ => exact ⟨hdone,hfile,hseen⟩
    | syncEnviron _ => exact ⟨hdone,hfile,hseen⟩

omit [DecidableEq ω] [DecidableEq κ] in
theorem apart_of_label {t : Transition (Shared ω κ) (SharedAction κ)} (hprepare : ∀ c mtime, t.label ≠ .prepare c mtime)
    (hreplace : ∀ c, t.label ≠ .replace c) : Apart t :=
  ⟨fun c mtime h => absurd h (hprepare c mtime),fun c _ h => absurd h (hreplace c)⟩

/-- A save that no other step comes between is `save`, as long as nothing raises. -/
theorem uninterrupted_save (site : Caller → ω) (worker : κ → ω) (dotenv : String → String → Option String) {c : Caller} (mtime : ℕ)
    (hidle : s.saves c = .idle) (hnul : NoNul (values c)) :
    ∃ us t, Trace (SharedStep values site worker dotenv) s us t ∧
      ((s.saves c.other).temp = none → (∀ k, s.seen k ≠ some mtime) → ∀ u ∈ us, Apart u) ∧
      t.file = some (prepareEnv (values c) s.content,mtime) ∧ t.setting = some (keysText s.setting (values c)) ∧
      t.environ (site c) = putAll (s.environ (site c)) (values c) ∧ t.saves c = .returned ∧
      t.saves c.other = s.saves c.other ∧ t.seen = s.seen ∧ t.syncs = s.syncs := by
  have h1 := Trace.single (@SharedStep.prepare ω κ _ _ values site worker dotenv s c mtime hidle)
  have h2 := h1.snoc (.readKeys (Function.update_self ..))
  have h3 := h2.snoc (.writeKeys (Function.update_self ..))
  have h4 := h3.snoc (.setEnviron (Function.update_self ..) hnul)
  have h5 := h4.snoc (.replace (Function.update_self ..))
  refine ⟨_,_,h5,fun hother hfresh u hu => ?_,rfl,rfl,Function.update_self ..,Function.update_self ..,?_,rfl,rfl⟩
  · simp only [List.mem_append, List.mem_singleton] at hu
    rcases hu with (((rfl | rfl) | rfl) | rfl) | rfl
    · refine ⟨fun d m hlabel => ?_,by simp⟩
      cases hlabel
      exact hother
    · exact apart_of_label (by simp) (by simp)
    · exact apart_of_label (by simp) (by simp)
    · exact apart_of_label (by simp) (by simp)
    · refine ⟨by simp,fun d f hlabel hf => ?_⟩
      cases hlabel
      have htemp : (@Function.update Caller (fun _ => SaveCall) _ _ c (.applied (prepareEnv (values c) s.content) mtime) c).temp = some f := hf
      rw [Function.update_self] at htemp
      cases htemp
      exact hfresh
  · have hne := c.other_ne
    change Function.update (Function.update (Function.update (Function.update (Function.update s.saves c _) c _) c _) c _) c _ c.other = _
    simp only [Function.update_of_ne hne]

theorem SharedStep.keyed {k : κ} (h : s.syncs k = .changed) (hkeys : savedKeys s.setting ≠ []) :
    SharedStep values site worker dotenv s (.syncKeys k) (s.putSync k (.keyed (savedKeys s.setting))) := by
  have hs := @SharedStep.syncKeys ω κ _ _ values site worker dotenv s k h
  rwa [if_neg hkeys] at hs

/-- A sync that no other step comes between, after the file has changed. -/
theorem uninterrupted_sync (values : Caller → Values) (site : Caller → ω) (worker : κ → ω) (dotenv : String → String → Option String)
    {k : κ} {f : String × ℕ} (hfile : s.file = some f) (hidle : s.syncs k = .idle) (hseen : s.seen k ≠ some f.2)
    (hkeys : savedKeys s.setting ≠ []) :
    ∃ us t, Trace (SharedStep values site worker dotenv) s us t ∧ (∀ u ∈ us, Apart u) ∧
      (∃ u ∈ us, u.label = .stat k ∧ u.before = s) ∧ t.file = s.file ∧ t.setting = s.setting ∧ t.saves = s.saves ∧
      t.syncs k = .idle ∧ (∀ j, j ≠ k → t.syncs j = s.syncs j ∧ t.seen j = s.seen j) := by
  have hstat : s.statted k = { s.putSync k .changed with seen := Function.update s.seen k (some f.2) } := by
    rw [statted_eq hfile, if_neg hseen]
  have h1 := Trace.single (@SharedStep.stat ω κ _ _ values site worker dotenv s k hidle)
  rw [hstat] at h1
  have h2 := h1.snoc (SharedStep.keyed (Function.update_self ..) hkeys)
  have h3 := h2.snoc (.syncFile (Function.update_self ..))
  have h4 := h3.snoc (.syncEnviron (Function.update_self ..))
  refine ⟨_,_,h4,fun u hu => ?_,
    ⟨_,List.mem_append_left _ (List.mem_append_left _ (List.mem_append_left _ (List.mem_singleton_self _))),rfl,rfl⟩,
    rfl,rfl,rfl,Function.update_self ..,fun j hj => ⟨?_,?_⟩⟩
  · simp only [List.mem_append, List.mem_singleton] at hu
    rcases hu with ((rfl | rfl) | rfl) | rfl <;> exact apart_of_label (by simp) (by simp)
  · change Function.update (Function.update (Function.update (Function.update s.syncs k _) k _) k _) k _ j = _
    simp only [Function.update_of_ne hj]
  · exact Function.update_of_ne hj ..

end

/-- In every run where the two saves do not overlap and each replaces the file by one with a new
modification time, both are kept, and every worker whose consumers have synced has their values. -/
theorem concurrent_saves_kept {ω κ : Type*} [DecidableEq ω] [DecidableEq κ] (values : Caller → Values) (site : Caller → ω)
    (worker : κ → ω) (dotenv : String → String → Option String) (ordinary literal : String → Prop)
    (hdotenv : ReadsLines dotenv ordinary literal) {ts : List (Transition (Shared ω κ) (SharedAction κ))} {s0 s : Shared ω κ}
    (h : Trace (SharedStep values site worker dotenv) s0 ts s) (h0 : Opening values s0)
    (hsaved : ∀ c, Saveable literal (values c)) (hdisjoint : ∀ c, ∀ k ∈ (values c).map Prod.fst, k ∉ (values c.other).map Prod.fst)
    (hordinary : ∀ l ∈ fileLines s0.content, ordinary l) (hapart : ∀ t ∈ ts, Apart t) (hfinished : s.Finished) :
    (∀ c, Defined (values c) s.content) ∧ (∀ c, KeysIn (values c) s.setting) ∧
    ∀ o, (∃ k, worker k = o) → (∀ k, worker k = o → Synced ts s k) → Holds values (s.environ o) := by
  obtain ⟨hkept,hall⟩ := savesKept_of_trace h h0 hdotenv hsaved hdisjoint hordinary hapart
  have hsound : ∀ c, Sound (values c) s.content s.setting .returned := fun c => hfinished c ▸ hkept.serial.sound c
  refine ⟨fun c => (hsound c).1,fun c => (hsound c).2.1,?_⟩
  rintro _ ⟨k,rfl⟩ hsynced c p hp
  have hne : ∃ c, values c ≠ [] := ⟨c,List.ne_nil_of_mem hp⟩
  obtain ⟨f,hf⟩ := hkept.current hfinished hne
  rcases hf.reach k with ⟨j,hj,hbusy⟩ | hholds
  · have hsync := hsynced j hj
    have hthere : ∀ t ∈ ts, t.before.Finished → ∃ g, t.before.file = some g := by
      intro t ht hdone
      obtain ⟨g,hg⟩ := (hall t ht).1.current hdone hne
      exact ⟨g,hg.file⟩
    obtain ⟨g,hfile,hseen⟩ := seen_of_synced h hthere hsync
    rw [hf.file] at hfile
    cases hfile
    exact absurd ⟨hsync.1,hseen⟩ hbusy
  · exact hholds c p hp

/-- The values of a file whose lines all define a quoted text: the last line of a name counts. -/
def lineValues (text name : String) : Option String :=
  (((textLines text).filter (fun l => lineKey l = some name)).getLast?).bind quotedValue

theorem readsLines_lineValues : ReadsLines lineValues (fun _ => True) (fun _ => True) := by
  refine ⟨fun text k line v _ hline hvalue _ => ?_,fun _ _ _ _ _ => trivial⟩
  rw [lineValues, hline, List.getLast?_singleton, Option.bind_some, hvalue]

/-- The router form and the bucket form, in two workers. -/
def twoForms : Caller → Values
  | .first => [("MT_HOST","198.51.100.6")]
  | .second => [("BACKUP_S3_BUCKET","protek-backup")]

def twoWorkers : Shared Caller Caller where
  file := some ("DRY_RUN='1'\n",1)
  setting := none
  environ := fun _ => noEnv
  saves := fun _ => .idle
  seen := fun _ => some 1
  syncs := fun _ => .idle

theorem opening_twoWorkers : Opening twoForms twoWorkers := by
  intro c
  cases c <;> rfl

theorem concurrent_saves_kept_example : ∃ ts s, Trace (SharedStep twoForms id id lineValues) twoWorkers ts s ∧ s.Finished ∧
    (∀ c, Defined (twoForms c) s.content) ∧ ∀ o, Holds twoForms (s.environ o) := by
  have hnul : ∀ c, NoNul (twoForms c) := by
    intro c
    cases c <;> (unfold NoNul; decide)
  have hsaved : ∀ c, Saveable (fun _ => True) (twoForms c) := by
    intro c
    cases c <;> exact ⟨by decide,by decide,by unfold Safe OneLine; decide,fun _ _ => trivial⟩
  obtain ⟨us1,s1,h1,hapart1,hfile1,hset1,-,hdone1,hidle1,hseen1,hsync1⟩ :=
    uninterrupted_save (s := twoWorkers) id id lineValues 2 rfl (hnul .first)
  obtain ⟨us2,s2,h2,hapart2,hfile2,hset2,-,hdone2,hother2,hseen2,hsync2⟩ :=
    uninterrupted_save (c := .second) id id lineValues 3 hidle1 (hnul .second)
  have hseen : ∀ k, s2.seen k = some 1 := by
    intro k
    rw [hseen2, hseen1]
    rfl
  have hidle : ∀ k, s2.syncs k = .idle := by
    intro k
    rw [hsync2, hsync1]
    rfl
  have hkeys : savedKeys s2.setting ≠ [] := by
    rw [hset2]
    exact List.ne_nil_of_mem (mem_savedKeys_keysText.mpr ⟨Or.inr (List.mem_singleton_self "BACKUP_S3_BUCKET"),by decide⟩)
  obtain ⟨us3,s3,h3,hapart3,hstat3,hfile3,hset3,hsaves3,hidle3,hother3⟩ :=
    uninterrupted_sync (k := .first) twoForms id id lineValues hfile2 (hidle _) (by simp [hseen]) hkeys
  obtain ⟨us4,s4,h4,hapart4,hstat4,hfile4,hset4,hsaves4,hidle4,hother4⟩ :=
    uninterrupted_sync (k := .second) twoForms id id lineValues (hfile3.trans hfile2) (by rw [(hother3 .second (by decide)).1]; exact hidle _)
    (by simp [(hother3 .second (by decide)).2, hseen]) (by rw [hset3]; exact hkeys)
  have hfinished2 : s2.Finished := by
    intro c
    cases c with
    | first => exact hother2.trans hdone1
    | second => exact hdone2
  have hfinished3 : s3.Finished := fun c => (congrFun hsaves3 c).trans (hfinished2 c)
  have hfinished4 : s4.Finished := fun c => (congrFun hsaves4 c).trans (hfinished3 c)
  have htrace := ((h1.append h2).append h3).append h4
  have hkept := concurrent_saves_kept twoForms id id lineValues (fun _ => True) (fun _ => True) readsLines_lineValues htrace
    opening_twoWorkers hsaved (by intro c; cases c <;> decide) (fun _ _ => trivial) ?_ hfinished4
  · refine ⟨_,_,htrace,hfinished4,hkept.1,fun o => hkept.2.2 o ⟨o,rfl⟩ (fun k hk => ?_)⟩
    cases k with
    | first =>
      obtain ⟨u,hu,hlabel,rfl⟩ := hstat3
      exact ⟨((hother4 .first (by decide)).1).trans hidle3,u,by simp [hu],hlabel,hfinished2⟩
    | second =>
      obtain ⟨u,hu,hlabel,rfl⟩ := hstat4
      exact ⟨hidle4,u,by simp [hu],hlabel,hfinished3⟩
  · intro t ht
    simp only [List.mem_append] at ht
    rcases ht with ((ht | ht) | ht) | ht
    · exact hapart1 rfl (by simp [twoWorkers]) t ht
    · exact hapart2 (by change (s1.saves .first).temp = none; rw [hdone1]; rfl) (by simp [hseen1, twoWorkers]) t ht
    · exact hapart3 t ht
    · exact hapart4 t ht

/-- Both saves read the file before either replaces it, and the first one's host is gone. -/
theorem first_save_lost : ∃ ts s, Trace (SharedStep twoForms id id lineValues) twoWorkers ts s ∧ s.Finished ∧
    (∀ c, NoNul (twoForms c)) ∧ ¬ Defined (twoForms .first) s.content := by
  have hnul : ∀ c, NoNul (twoForms c) := by
    intro c
    cases c <;> (unfold NoNul; decide)
  have h1 := Trace.single (@SharedStep.prepare _ _ _ _ twoForms id id lineValues twoWorkers .first 2 rfl)
  have h2 := h1.snoc (@SharedStep.prepare _ _ _ _ twoForms id id lineValues _ .second 3 rfl)
  have h3 := h2.snoc (@SharedStep.readKeys _ _ _ _ twoForms id id lineValues _ .first _ _ rfl)
  have h4 := h3.snoc (@SharedStep.writeKeys _ _ _ _ twoForms id id lineValues _ .first _ _ _ rfl)
  have h5 := h4.snoc (@SharedStep.setEnviron _ _ _ _ twoForms id id lineValues _ .first _ _ rfl (hnul .first))
  have h6 := h5.snoc (@SharedStep.replace _ _ _ _ twoForms id id lineValues _ .first _ _ rfl)
  have h7 := h6.snoc (@SharedStep.readKeys _ _ _ _ twoForms id id lineValues _ .second _ _ rfl)
  have h8 := h7.snoc (@SharedStep.writeKeys _ _ _ _ twoForms id id lineValues _ .second _ _ _ rfl)
  have h9 := h8.snoc (@SharedStep.setEnviron _ _ _ _ twoForms id id lineValues _ .second _ _ rfl (hnul .second))
  have h10 := h9.snoc (@SharedStep.replace _ _ _ _ twoForms id id lineValues _ .second _ _ rfl)
  refine ⟨_,_,h10,fun c => ?_,hnul,fun hdefined => ?_⟩
  · cases c <;> rfl
  · have hnone : (fileLines (some (prepareEnv (twoForms .second) twoWorkers.content))).filter (fun l => lineKey l = some "MT_HOST") = [] := by
      decide +kernel
    obtain ⟨line,hline,-⟩ := hdefined _ (List.mem_singleton_self ("MT_HOST","198.51.100.6"))
    exact absurd (hnone.symm.trans hline) (by simp)

end Protek.Connection
