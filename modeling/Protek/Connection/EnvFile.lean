import Protek.Connection.Form
import Protek.Foundation.LineEdit

/-! # The `.env` file

`_prepare_env` writes one quoted line for each changed key and keeps every other line.
What the file then says is clean exactly when no value ends its quotes or its line.
-/
namespace Protek.Connection
open Foundation Foundation.PyText Foundation.LineEdit

def isNameStart (c : Char) : Bool := c.isAlpha || c = '_'

def isNameChar (c : Char) : Bool := c.isAlphanum || c = '_'

/-- The name of `([A-Za-z_][A-Za-z0-9_]*)\s*=`. -/
def assigned (cs : List Char) : Option String :=
  let name := cs.takeWhile isNameChar
  if name.head?.any isNameStart ∧ ((cs.drop name.length).dropWhile isSpace).head? = some '=' then some (String.ofList name)
  else none

/-- The key of `_LINE_RE`. -/
def lineKey (line : String) : Option String :=
  let cs := line.toList.dropWhile isSpace
  let exported := if "export".toList.isPrefixOf cs ∧ (cs.drop 6).head?.any isSpace then assigned ((cs.drop 6).dropWhile isSpace) else none
  exported.orElse (fun _ => assigned cs)

def quote (v : String) : String := "\x27" ++ v ++ "\x27"

def envLine (values : Values) (k : String) : String := k ++ "=" ++ quote ((values.get k).getD "")

/-- The lines of the file, none where there is no file. -/
def fileLines (content : Option String) : List String := content.elim [] textLines

/-- The text of the temporary file. -/
def prepareEnv (values : Values) (content : Option String) : String :=
  joinLines (edit lineKey (envLine values) (values.map Prod.fst) [] (fileLines content))

/-- The file after a save, which writes nothing where nothing changed. -/
def savedFile (values : Values) (content : Option String) : Option String :=
  if values = [] then content else some (prepareEnv values content)

/-- The text between the quotes of a line that ends with them. -/
def quotedValue (line : String) : Option String :=
  match (line.toList.dropWhile (· ≠ '=')).drop 1 with
  | '\x27' :: cs =>
    if cs.dropWhile (· ≠ '\x27') = ['\x27'] then some (String.ofList (cs.takeWhile (· ≠ '\x27'))) else none
  | _ => none

/-- The other lines are kept in their order, each saved key has one line with its value between
quotes, and saving once more changes nothing. -/
structure SavedCleanly (values : Values) (before after : Option String) : Prop where
  others : (fileLines after).filter (fun l => !ours lineKey (values.map Prod.fst) l) =
    (fileLines before).filter (fun l => !ours lineKey (values.map Prod.fst) l)
  defined : ∀ p ∈ values, ∃ line, (fileLines after).filter (fun l => lineKey l = some p.1) = [line] ∧
    quotedValue line = some p.2
  again : savedFile values after = after

/-- A value that ends neither its quotes nor its line. -/
def Safe (v : String) : Prop := OneLine v ∧ '\x27' ∉ v.toList

/-! ## Lines of one key -/

/-- A name that a line may begin with. -/
structure IsKey (k : String) : Prop where
  start : ∃ c cs, k.toList = c :: cs ∧ isNameStart c = true ∧ c ≠ 'e' ∧ isSpace c = false
  chars : ∀ c ∈ k.toList, isNameChar c = true

theorem isKey_of_managed {k : String} (hk : k ∈ managed) : IsKey k := by
  have hstart : ∀ k ∈ managed, k.toList.head?.any (fun c => isNameStart c && c ≠ 'e' && !isSpace c) = true := by decide
  have hchars : ∀ k ∈ managed, k.toList.all isNameChar = true := by decide
  refine ⟨?_,List.all_eq_true.mp (hchars k hk)⟩
  obtain ⟨c,hhead,hletter⟩ := (Option.any_eq_true _ _).mp (hstart k hk)
  obtain ⟨cs,hcs⟩ := List.head?_eq_some_iff.mp hhead
  simp only [Bool.and_eq_true, decide_eq_true_eq, Bool.not_eq_true'] at hletter
  exact ⟨c,cs,hcs,hletter.1.1,hletter.1.2,hletter.2⟩

theorem takeWhile_name {cs : List Char} (h : ∀ c ∈ cs, isNameChar c = true) (r : List Char) :
    (cs ++ '=' :: r).takeWhile isNameChar = cs := by
  rw [List.takeWhile_append_of_pos h, List.takeWhile_cons_of_neg (by decide), List.append_nil]

theorem lineKey_of_isKey {k : String} (hk : IsKey k) (r : String) : lineKey (k ++ "=" ++ r) = some k := by
  obtain ⟨c,cs,hcs,hstart,he,hspace⟩ := hk.start
  have hlist : (k ++ "=" ++ r).toList = k.toList ++ '=' :: r.toList := by
    rw [String.toList_append, String.toList_append, List.append_assoc]
    rfl
  have hdrop : (k ++ "=" ++ r).toList.dropWhile isSpace = k.toList ++ '=' :: r.toList := by
    rw [hlist, hcs, List.cons_append, List.dropWhile_cons_of_neg (by simp [hspace])]
  have hno : "export".toList.isPrefixOf (k.toList ++ '=' :: r.toList) = false := by
    rw [hcs, List.cons_append]
    change (('e' == c) && _) = false
    simp [he.symm]
  have hname : assigned (k.toList ++ '=' :: r.toList) = some k := by
    have hdropped : (k.toList ++ '=' :: r.toList).drop k.toList.length = '=' :: r.toList := List.drop_left
    have hhead : k.toList.head?.any isNameStart = true := by
      rw [hcs]
      exact hstart
    unfold assigned
    simp only [takeWhile_name hk.chars, hdropped, hhead]
    rw [String.ofList_toList]
    rfl
  unfold lineKey
  simp only [hdrop, hno]
  simpa using hname

theorem quotedValue_line {k v : String} (hk : IsKey k) (hv : '\x27' ∉ v.toList) :
    quotedValue (k ++ "=" ++ quote v) = some v := by
  have hlist : (k ++ "=" ++ quote v).toList = k.toList ++ '=' :: '\x27' :: (v.toList ++ ['\x27']) := by
    simp [quote, String.toList_append]
  have hkey : ∀ c ∈ k.toList, decide (c ≠ '=') = true := by
    intro c hc
    refine decide_eq_true (fun heq => ?_)
    have hchar := hk.chars c hc
    rw [heq] at hchar
    exact absurd hchar (by decide)
  have hvalue : ∀ c ∈ v.toList, decide (c ≠ '\x27') = true := fun c hc => decide_eq_true (fun heq => hv (heq ▸ hc))
  unfold quotedValue
  rw [hlist, List.dropWhile_append_of_pos hkey, List.dropWhile_cons_of_neg (by simp), List.drop_succ_cons, List.drop_zero]
  change (if (v.toList ++ ['\x27']).dropWhile _ = _ then some (String.ofList ((v.toList ++ ['\x27']).takeWhile _)) else none) = _
  rw [List.dropWhile_append_of_pos hvalue, List.takeWhile_append_of_pos hvalue, List.dropWhile_cons_of_neg (by simp),
    List.takeWhile_cons_of_neg (by simp), if_pos rfl, List.append_nil, String.ofList_toList]

/-- A value that a line holds between its quotes has no quote and no line end. -/
theorem safe_of_quotedValue {line v : String} (hline : OneLine line) (h : quotedValue line = some v) : Safe v := by
  unfold quotedValue at h
  split at h
  · rename_i cs hcs
    split at h
    · cases h
      have hsub : ∀ c ∈ cs.takeWhile (· ≠ '\x27'), c ∈ line.toList := by
        intro c hc
        have hmem : c ∈ (line.toList.dropWhile (· ≠ '=')).drop 1 := by
          rw [hcs]
          exact List.mem_cons_of_mem _ ((List.takeWhile_prefix _).subset hc)
        exact (List.dropWhile_sublist _).subset (List.mem_of_mem_drop hmem)
      unfold Safe OneLine
      rw [String.toList_ofList]
      refine ⟨⟨fun hmem => hline.1 (hsub _ hmem),fun hmem => hline.2 (hsub _ hmem)⟩,fun hmem => ?_⟩
      simpa using List.mem_takeWhile_imp hmem
    · cases h
  · cases h

/-! ## The saved file -/

section
variable {values : Values} {content : Option String}

theorem envLine_of_mem (hnodup : (values.map Prod.fst).Nodup) {p : String × String} (hp : p ∈ values) :
    envLine values p.1 = p.1 ++ "=" ++ quote p.2 := by rw [envLine, get_of_mem hnodup hp]; rfl

theorem oneLine_append {a b : String} (ha : OneLine a) (hb : OneLine b) : OneLine (a ++ b) := by
  unfold OneLine
  rw [String.toList_append, List.mem_append, List.mem_append, not_or, not_or]
  exact ⟨⟨ha.1,hb.1⟩,ha.2,hb.2⟩

theorem oneLine_of_isKey {k : String} (hk : IsKey k) : OneLine k := by
  constructor
  · exact fun hmem => absurd (hk.chars _ hmem) (by decide)
  · exact fun hmem => absurd (hk.chars _ hmem) (by decide)

theorem oneLine_envLine (hnodup : (values.map Prod.fst).Nodup) (hkeys : ∀ p ∈ values, IsKey p.1)
    (hsafe : ∀ p ∈ values, Safe p.2) {k : String} (hk : k ∈ values.map Prod.fst) : OneLine (envLine values k) := by
  obtain ⟨p,hp,rfl⟩ := List.mem_map.mp hk
  rw [envLine_of_mem hnodup hp, quote]
  have hquote : OneLine "\x27" := by simp [OneLine]
  have hassign : OneLine "=" := by simp [OneLine]
  exact oneLine_append (oneLine_append (oneLine_of_isKey (hkeys p hp)) hassign)
    (oneLine_append (oneLine_append hquote (hsafe p hp).1) hquote)

theorem oneLine_fileLines {line : String} (h : line ∈ fileLines content) : OneLine line := by
  cases content with
  | none => exact absurd h List.not_mem_nil
  | some text => exact oneLine_of_mem h

theorem lineKey_envLine (hnodup : (values.map Prod.fst).Nodup) (hkeys : ∀ p ∈ values, IsKey p.1) :
    ∀ k ∈ values.map Prod.fst, lineKey (envLine values k) = some k := by
  intro k hk
  obtain ⟨p,hp,rfl⟩ := List.mem_map.mp hk
  rw [envLine_of_mem hnodup hp]
  exact lineKey_of_isKey (hkeys p hp) _

/-- Safe values are read as the lines that were written. -/
theorem fileLines_prepareEnv (hnodup : (values.map Prod.fst).Nodup) (hkeys : ∀ p ∈ values, IsKey p.1)
    (hsafe : ∀ p ∈ values, Safe p.2) (hne : values ≠ []) :
    fileLines (some (prepareEnv values content)) =
      edit lineKey (envLine values) (values.map Prod.fst) [] (fileLines content) := by
  refine textLines_joinLines (fun hnil => ?_) (fun l hl => ?_)
  · obtain ⟨p,hp⟩ := List.exists_mem_of_ne_nil values hne
    have hown := filter_edit_own (lineKey_envLine hnodup hkeys) hnodup (List.mem_map_of_mem hp) [] (fileLines content)
    rw [hnil] at hown
    simp at hown
  · rcases mem_edit hl with hl | ⟨k,hk,rfl⟩
    · exact oneLine_fileLines hl
    · exact oneLine_envLine hnodup hkeys hsafe hk

/-- A save is clean exactly when every value is safe. -/
theorem savedCleanly_iff (hnodup : (values.map Prod.fst).Nodup) (hkeys : ∀ p ∈ values, IsKey p.1) :
    SavedCleanly values content (savedFile values content) ↔ ∀ p ∈ values, Safe p.2 := by
  constructor
  · intro h p hp
    obtain ⟨line,hline,hquoted⟩ := h.defined p hp
    have hmem : line ∈ fileLines (savedFile values content) := by
      refine List.mem_of_mem_filter (p := fun l => lineKey l = some p.1) ?_
      rw [hline]
      exact List.mem_singleton_self line
    exact safe_of_quotedValue (oneLine_fileLines hmem) hquoted
  · intro hsafe
    by_cases hne : values = []
    · subst hne
      exact ⟨rfl,fun p hp => absurd hp List.not_mem_nil,rfl⟩
    · have hkey := lineKey_envLine hnodup hkeys
      have hlines := @fileLines_prepareEnv values content hnodup hkeys hsafe hne
      have hsaved : savedFile values content = some (prepareEnv values content) := if_neg hne
      rw [hsaved]
      refine ⟨?_,fun p hp => ⟨envLine values p.1,?_,?_⟩,?_⟩
      · rw [hlines]
        exact filter_edit hkey [] (fileLines content)
      · rw [hlines]
        exact filter_edit_own hkey hnodup (List.mem_map_of_mem hp) [] (fileLines content)
      · rw [envLine_of_mem hnodup hp]
        exact quotedValue_line (hkeys p hp) (hsafe p hp).2
      · rw [savedFile, if_neg hne]
        have hagain : prepareEnv values (some (prepareEnv values content)) = prepareEnv values content := by
          rw [prepareEnv, hlines, edit_edit hkey hnodup]
          rfl
        rw [hagain]

end

/-! ## What the forms accept -/

theorem safe_of_all {v : String} {p : Char → Bool} (hp : p '\n' = false ∧ p '\r' = false ∧ p '\x27' = false)
    (h : ∀ c ∈ v.toList, p c = true) : Safe v := by
  have hno : ∀ c, p c = false → c ∉ v.toList := by
    intro c hc hmem
    rw [h c hmem] at hc
    cases hc
  exact ⟨⟨hno _ hp.1,hno _ hp.2.1⟩,hno _ hp.2.2⟩

theorem safe_empty : Safe "" := by simp [Safe, OneLine]

theorem Safe.strip {v : String} (h : Safe v) : Safe (strip v) :=
  ⟨⟨fun hmem => h.1.1 (mem_of_mem_strip hmem),fun hmem => h.1.2 (mem_of_mem_strip hmem)⟩,fun hmem => h.2 (mem_of_mem_strip hmem)⟩

theorem safe_of_badChars {P : PrintTable} {v : String} (h : badChars P v = false) : Safe v := by
  refine safe_of_all (p := fun c => decide (c ≠ '\x27') && P.isPrintable c) ⟨?_,?_,by simp⟩ (fun c hc => ?_)
  · rw [P.isPrintable_ascii _ (by decide)]
    rfl
  · rw [P.isPrintable_ascii _ (by decide)]
    rfl
  · have hc := List.any_eq_false.mp h c hc
    simp at hc
    simp [hc]

section
variable {P : PrintTable} {T : CharTable} {refused : String → Bool} {env : Env} {form : Form}

/-- A secret that is kept is not written, or can be written as it is. -/
def Kept (env : Env) (name : String) : Prop := strip ((env name).getD "") = (env name).getD "" ∨ Safe ((env name).getD "")

/-- The fields that the form does not check are not written, or can be written as they are. -/
structure RouterSafe (env : Env) (form : Form) : Prop where
  key : strip (raw form "lapi_key") = "" → Kept env "CROWDSEC_BOUNCER_KEY"
  port : routerOn form = false → portText form = shown env "MT_PORT" ∨ Safe (portText form)
  password : routerOn form = true → raw form "mt_password" = "" → Kept env "MT_PASSWORD"

def B2Safe (env : Env) (form : Form) : Prop := strip (raw form "s3_secret") = "" → Kept env "BACKUP_S3_SECRET"

theorem changed_safe_iff {values : Values} (hnodup : (values.map Prod.fst).Nodup) (hkeys : ∀ p ∈ values, p.1 ∈ managed) :
    (∀ p ∈ changedValues env values, Safe p.2) ↔ ∀ p ∈ values, p.2 = currentOf env p.1 ∨ Safe p.2 := by
  constructor
  · intro h p hp
    rcases eq_or_ne p.2 (currentOf env p.1) with heq | hne
    · exact Or.inl heq
    · exact Or.inr (h p (mem_changedValues.mpr ⟨hkeys p hp,get_of_mem hnodup hp,hne⟩))
  · intro h p hp
    obtain ⟨hmem,hget,hne⟩ := mem_changedValues.mp hp
    obtain ⟨q,hq,hval⟩ := Option.map_eq_some_iff.mp hget
    have hkey : q.1 = p.1 := by simpa using List.find?_some hq
    have hsafe := h q (List.mem_of_find?_eq_some hq)
    rw [hval, hkey] at hsafe
    exact hsafe.resolve_left hne

theorem safe_typed {v : String} (h : v ≠ "" → badChars P v = false) : Safe v := by
  by_cases hv : v = ""
  · rw [hv]
    exact safe_empty
  · exact safe_of_badChars (h hv)

/-- A secret goes unchanged or safe, as long as the current one does where the form has none. -/
theorem secret_iff {typed name : String} (htyped : Safe typed) (hname : name ∈ secretKeys) :
    (secretOr env typed name = currentOf env name ∨ Safe (secretOr env typed name)) ↔ (typed = "" → Kept env name) := by
  unfold secretOr Kept currentOf
  rw [if_pos hname]
  by_cases hblank : typed = ""
  · rw [if_pos hblank]
    exact ⟨fun h _ => h.imp_left Eq.symm,fun h => (h hblank).imp_left Eq.symm⟩
  · rw [if_neg hblank]
    exact ⟨fun _ h => absurd h hblank,fun _ => Or.inr htyped⟩

theorem safe_of_region {s : String} (h : isRegion s = true) : Safe s :=
  safe_of_all (p := isRegionChar) (by decide) (List.all_eq_true.mp (Bool.and_eq_true _ _ ▸ h).2)

theorem safe_of_host {s : String} (h : isHost (strip s) = true) : Safe (strip s) :=
  safe_of_all (p := isHostChar) (by decide) (List.all_eq_true.mp (Bool.and_eq_true _ _ ▸ wholeText_strip h).2)

theorem safe_of_bucket {s : String} (h : isBucket (strip s) = true) : Safe (strip s) := by
  have hbucket := wholeText_strip h
  simp only [Bool.and_eq_true] at hbucket
  exact safe_of_all (p := isBucketChar) (by decide) (List.all_eq_true.mp hbucket.1.1.2)

theorem safe_of_digits {s : String} (h : isdigit T s = true) : Safe s := by
  refine safe_of_all (p := T.isDigit) ⟨?_,?_,?_⟩ (List.all_eq_true.mp (Bool.and_eq_true _ _ ▸ h).2)
  · rw [T.isDigit_ascii _ (by decide)]
    rfl
  · rw [T.isDigit_ascii _ (by decide)]
    rfl
  · rw [T.isDigit_ascii _ (by decide)]
    rfl

theorem routerSafe_iff (h : Accepted P T env form) :
    (∀ p ∈ changedValues env (routerValues env form), Safe p.2) ↔ RouterSafe env form := by
  rw [changed_safe_iff routerValues_nodup (fun p hp => managed_of_routerValues hp)]
  have hkey : (lapiKey env form = currentOf env "CROWDSEC_BOUNCER_KEY" ∨ Safe (lapiKey env form)) ↔
      (strip (raw form "lapi_key") = "" → Kept env "CROWDSEC_BOUNCER_KEY") :=
    secret_iff (safe_typed (fun hne => (h.key hne).1)).strip (by decide)
  constructor
  · intro hall
    refine ⟨fun hblank => ?_,fun hoff => ?_,fun hon hblank => ?_⟩
    · have hwritten := hall ("CROWDSEC_BOUNCER_KEY",lapiKey env form) (by simp [routerValues])
      dsimp only at hwritten
      exact hkey.mp hwritten hblank
    · have hport := hall ("MT_PORT",portText form) (by simp [routerValues])
      dsimp only at hport
      rwa [currentOf, if_neg (by decide)] at hport
    · have hpw := hall ("MT_PASSWORD",routerPassword env form) (by simp [routerValues])
      dsimp only at hpw
      rw [routerPassword, if_pos hon] at hpw
      exact (secret_iff (safe_typed (h.router hon).password) (by decide)).mp hpw hblank
  · intro hsafe p hp
    simp only [routerValues, List.mem_cons, List.not_mem_nil, or_false] at hp
    rcases hp with rfl | rfl | rfl | rfl | rfl | rfl | rfl <;> dsimp only
    · exact Or.inr (safe_of_badChars h.url)
    · exact hkey.mpr hsafe.key
    · right
      cases hon : routerOn form with
      | true => exact safe_of_host (h.router hon).host
      | false =>
        have hhost : field form "mt_host" = "" := by simpa using (Bool.or_eq_false_iff.mp hon).1
        rw [hhost]
        exact safe_empty
    · cases hon : routerOn form with
      | true => exact Or.inr (safe_of_digits (h.router hon).digits)
      | false =>
        rw [currentOf, if_neg (by decide)]
        exact hsafe.port hon
    · right
      cases useSsl form <;> simp [Safe, OneLine]
    · right
      cases hon : routerOn form with
      | true => exact safe_of_badChars (h.router hon).username
      | false =>
        have huser : field form "mt_username" = "" := by simpa using (Bool.or_eq_false_iff.mp hon).2
        rw [huser]
        exact safe_empty
    · cases hon : routerOn form with
      | true =>
        rw [routerPassword, if_pos hon]
        exact (secret_iff (safe_typed (h.router hon).password) (by decide)).mpr (hsafe.password hon)
      | false =>
        rw [routerPassword, if_neg (by simp [hon])]
        exact Or.inr safe_empty

theorem b2Safe_iff (h : B2Accepted P env form) :
    (∀ p ∈ changedValues env (b2Values env form), Safe p.2) ↔ B2Safe env form := by
  rw [changed_safe_iff b2Values_nodup (fun p hp => managed_of_b2Values hp)]
  have hsecret : (s3Secret env form = currentOf env "BACKUP_S3_SECRET" ∨ Safe (s3Secret env form)) ↔ B2Safe env form :=
    secret_iff (safe_typed h.secret).strip (by decide)
  constructor
  · intro hall
    have hwritten := hall ("BACKUP_S3_SECRET",s3Secret env form) (by simp [b2Values])
    dsimp only at hwritten
    exact hsecret.mp hwritten
  · intro hsafe p hp
    simp only [b2Values, List.mem_cons, List.not_mem_nil, or_false] at hp
    rcases hp with rfl | rfl | rfl | rfl | rfl <;> dsimp only
    · exact Or.inr (safe_typed (fun hne => (h.endpoint hne).1))
    · right
      by_cases hregion : s3Region form = ""
      · rw [hregion]
        simp [orElse, Safe, OneLine]
      · rw [orElse_some hregion]
        exact safe_of_region (h.region hregion)
    · exact Or.inr (safe_of_bucket h.bucket)
    · exact Or.inr (safe_of_badChars h.keyId.1)
    · exact hsecret.mpr hsafe

end

theorem changedValues_savedCleanly (env : Env) (values : Values) (content : Option String) :
    SavedCleanly (changedValues env values) content (savedFile (changedValues env values) content) ↔
      ∀ p ∈ changedValues env values, Safe p.2 := by
  refine savedCleanly_iff ?_ (fun p hp => isKey_of_managed (mem_changedValues.mp hp).1)
  rw [keys_changedValues]
  exact changedKeys_nodup

/-- An accepted form is saved cleanly exactly when what it does not check, the port of a router
that is turned off and the secrets it keeps, is not written or can be written as it is. -/
theorem connection_save_clean (P : PrintTable) (T : CharTable) (refused : String → Bool) (env : Env) (form : Form)
    (content : Option String) (values : Values) :
    (validate P T refused env form = some (values,[]) →
      (SavedCleanly (changedValues env values) content (savedFile (changedValues env values) content) ↔ RouterSafe env form)) ∧
    (validateB2 P refused env form = some (values,[]) →
      (SavedCleanly (changedValues env values) content (savedFile (changedValues env values) content) ↔ B2Safe env form)) := by
  constructor
  · intro h
    obtain ⟨rfl,hacc⟩ := validate_accepted h
    rw [changedValues_savedCleanly, routerSafe_iff hacc]
  · intro h
    obtain ⟨rfl,hacc⟩ := validateB2_accepted h
    rw [changedValues_savedCleanly, b2Safe_iff hacc]

/-- The router is left off, and its port field is free text. -/
def portForm (port : String) : Form := fun k =>
  match k with
  | "lapi_url" => some "http://127.0.0.1:8080"
  | "lapi_key" => some "abc"
  | "mt_port" => some port
  | _ => none

theorem connection_save_clean_example :
    SavedCleanly (changedValues noEnv (routerValues noEnv (portForm "8729"))) (some "DRY_RUN=1\n")
      (savedFile (changedValues noEnv (routerValues noEnv (portForm "8729"))) (some "DRY_RUN=1\n")) := by
  refine ((connection_save_clean PrintTable.ascii CharTable.ascii (fun _ => false) noEnv (portForm "8729")
    (some "DRY_RUN=1\n") _).1 (by decide +kernel)).mpr ⟨fun _ => ?_,fun _ => ?_,fun hon => ?_⟩
  · exact Or.inl (by decide)
  · exact Or.inr (by unfold Safe OneLine; decide)
  · exact absurd hon (by decide)

def injectedPort : String := "8728\x27\nSECRET_KEY=\x27pwned"

/-- A port with a quote and a line feed defines a key of its own. -/
theorem secret_key_injected :
    validate PrintTable.ascii CharTable.ascii (fun _ => false) noEnv (portForm injectedPort) =
      some (routerValues noEnv (portForm injectedPort),[]) ∧
    ¬ SavedCleanly (changedValues noEnv (routerValues noEnv (portForm injectedPort))) (some "SECRET_KEY=s\n")
      (savedFile (changedValues noEnv (routerValues noEnv (portForm injectedPort))) (some "SECRET_KEY=s\n")) ∧
    "SECRET_KEY=\x27pwned\x27" ∈
      fileLines (savedFile (changedValues noEnv (routerValues noEnv (portForm injectedPort))) (some "SECRET_KEY=s\n")) := by
  refine ⟨by decide +kernel,fun h => ?_,by decide +kernel⟩
  have hport : ("MT_PORT",injectedPort) ∈ changedValues noEnv (routerValues noEnv (portForm injectedPort)) :=
    mem_changedValues.mpr ⟨by decide,by decide +kernel,by decide +kernel⟩
  have hsafe := (changedValues_savedCleanly noEnv _ _).mp h _ hport
  exact hsafe.2 (by decide)

end Protek.Connection
