import Protek.Connection.Form
import Protek.Foundation.AddressText
import Protek.Foundation.LineEdit

/-! # Who reads the connection settings

The router client, the seeding of the local source and the off-box backup each read
their variables anew, most of them only up to a `#`.
-/
namespace Protek.Connection
open Foundation Foundation.PyText

/-- `_envstr`: a variable up to a `#`, without the white space around it. -/
def envstr (env : Env) (name default : String) : String :=
  strip (String.ofList (((env name).getD default).toList.takeWhile (· ≠ '#')))

def envint (T : CharTable) (env : Env) (name : String) (default : ℤ) : ℤ :=
  let v := envstr env name ""
  if v = "" then default else (pyInt T v).getD default

structure MikroTik where
  host : String
  username : String
  password : String
  port : ℤ
  useSsl : Bool
  deriving DecidableEq, Repr

/-- `MikroTik()` without arguments. -/
def mikroTik (U : CaseMap) (T : CharTable) (env : Env) : MikroTik where
  host := envstr env "MT_HOST" ""
  username := envstr env "MT_USERNAME" ""
  password := (env "MT_PASSWORD").getD ""
  port := envint T env "MT_PORT" 8728
  useSsl := U.lower (envstr env "MT_USE_SSL" "false") ∈ ["1","true","yes"]

/-- Address and key that `seed_local_source` writes into the `local` row, `none` where it has no key. -/
def seedLocalSource (env : Env) : Option (String × String) :=
  let key := envstr env "CROWDSEC_BOUNCER_KEY" ""
  if key = "" then none else some (envstr env "CROWDSEC_LAPI_URL" "http://127.0.0.1:8080",key)

structure S3Client where
  endpoint : Option String
  region : String
  bucket : String
  key : String
  secret : String
  deriving DecidableEq, Repr

def orNone (v : String) : Option String := if v = "" then none else some v

/-- `S3Backend()`, `none` where it raises. -/
def s3Backend (env : Env) : Option S3Client :=
  let bucket := envstr env "BACKUP_S3_BUCKET" ""
  let key := envstr env "BACKUP_S3_KEY" ""
  let secret := envstr env "BACKUP_S3_SECRET" ""
  if bucket = "" ∨ key = "" ∨ secret = "" then none
  else some ⟨orNone (envstr env "BACKUP_S3_ENDPOINT" ""),orElse (some (envstr env "BACKUP_S3_REGION" "")) "us-east-1",
    bucket,key,secret⟩

def offsiteConfigured (env : Env) : Bool :=
  envstr env "BACKUP_S3_BUCKET" "" ≠ "" && envstr env "BACKUP_S3_KEY" "" ≠ "" && envstr env "BACKUP_S3_SECRET" "" ≠ ""

/-- `os.environ` after the saved values are put into it, `none` where one of them has a NUL. -/
def appliedEnv (env : Env) (saved : Values) : Option Env :=
  if saved.any (fun p => '\x00' ∈ p.2.toList) then none else some (fun k => (saved.get k).or (env k))

/-- The router form's values, as their readers take them. -/
structure RouterReads (U : CaseMap) (T : CharTable) (env : Env) (form : Form) (env' : Env) : Prop where
  host : (mikroTik U T env').host = field form "mt_host"
  username : (mikroTik U T env').username = field form "mt_username"
  password : (mikroTik U T env').password = routerPassword env form
  port : pyInt T (portText form) = some (mikroTik U T env').port
  useSsl : (mikroTik U T env').useSsl = useSsl form
  source : seedLocalSource env' = some (lapiUrl form,lapiKey env form)

structure B2Reads (env : Env) (form : Form) (env' : Env) : Prop where
  backend : s3Backend env' = some ⟨orNone (s3Endpoint form),orElse (some (s3Region form)) "us-east-1",
    field form "s3_bucket",field form "s3_key",s3Secret env form⟩
  configured : offsiteConfigured env' = true

/-- A text that `_envstr` leaves as it is. -/
def Plain (v : String) : Prop := '#' ∉ v.toList ∧ strip v = v

/-- What the router form does not check reaches its reader. -/
structure RouterReadable (T : CharTable) (env : Env) (form : Form) : Prop where
  url : strip (lapiUrl form) = lapiUrl form
  key : strip (raw form "lapi_key") = "" → Plain ((env "CROWDSEC_BOUNCER_KEY").getD "")
  port : routerOn form = false → (pyInt T (portText form)).isSome = true
  password : routerPassword env form = strip ((env "MT_PASSWORD").getD "") → (env "MT_PASSWORD").getD "" = routerPassword env form

structure B2Readable (env : Env) (form : Form) : Prop where
  endpoint : strip (s3Endpoint form) = s3Endpoint form
  secret : Plain (s3Secret env form)

/-! ## Reading one variable -/

theorem beforeHash_eq_self {v : String} (h : '#' ∉ v.toList) : String.ofList (v.toList.takeWhile (· ≠ '#')) = v := by
  have hall : ∀ c ∈ v.toList, decide (c ≠ '#') = true := fun c hc => decide_eq_true (fun heq => h (heq ▸ hc))
  rw [List.takeWhile_eq_self_iff.mpr hall, String.ofList_toList]

theorem hash_not_mem_strip_beforeHash (v : String) : '#' ∉ (strip (String.ofList (v.toList.takeWhile (· ≠ '#')))).toList := by
  intro hmem
  have hmem := mem_of_mem_strip hmem
  rw [String.toList_ofList] at hmem
  simpa using List.mem_takeWhile_imp hmem

theorem commentTail_some {cs t : List Char} (h : commentTail cs = some t) :
    ∃ r, cs = '#' :: r ∧ ∀ c ∈ t, isSpace c = true := by
  unfold commentTail at h
  split at h
  · rename_i r
    refine ⟨r,rfl,?_⟩
    split at h
    · cases h
      simp
    · split at h
      · cases h
        intro c hc
        rw [List.mem_singleton.mp hc]
        decide
      · cases h
  · cases h

/-- The regular expression takes nothing away, or white space and a comment at the end. -/
theorem dropComment_cases (cs : List Char) : dropComment cs = cs ∨ ∃ a w r t, cs = a ++ w ++ '#' :: r ∧ dropComment cs = a ++ t ∧
    (∀ c ∈ w, isSpace c = true) ∧ ∀ c ∈ t, isSpace c = true := by
  induction cs with
  | nil => exact Or.inl rfl
  | cons c cs ih =>
    have hkeep : dropComment (c :: cs) = c :: dropComment cs → dropComment (c :: cs) = c :: cs ∨
        ∃ a w r t, c :: cs = a ++ w ++ '#' :: r ∧ dropComment (c :: cs) = a ++ t ∧
          (∀ c ∈ w, isSpace c = true) ∧ ∀ c ∈ t, isSpace c = true := by
      intro heq
      rcases ih with hsame | ⟨a,w,r,t,hcs,hdrop,hw,ht⟩
      · exact Or.inl (by rw [heq, hsame])
      · exact Or.inr ⟨c :: a,w,r,t,by rw [hcs]; rfl,by rw [heq, hdrop]; rfl,hw,ht⟩
    cases htail : commentTail (cs.dropWhile isSpace) with
    | none => exact hkeep (by rw [dropComment, htail])
    | some t =>
      by_cases hc : isSpace c = true
      · obtain ⟨r,hr,ht⟩ := commentTail_some htail
        refine Or.inr ⟨[],c :: cs.takeWhile isSpace,r,t,?_,?_,?_,ht⟩
        · rw [List.nil_append, List.cons_append, ← hr, List.takeWhile_append_dropWhile]
        · rw [dropComment, htail]
          exact if_pos hc
        · intro d hd
          rcases List.mem_cons.mp hd with rfl | hd
          · exact hc
          · exact List.mem_takeWhile_imp hd
      · refine hkeep ?_
        rw [dropComment, htail]
        exact if_neg hc

/-- A value that the form shows is the one that `_envstr` reads, unless it has a `#`. -/
theorem strip_beforeHash_of_shown {v s : String} (h : strip (String.ofList (dropComment s.toList)) = v) (hv : '#' ∉ v.toList) :
    strip (String.ofList (s.toList.takeWhile (· ≠ '#'))) = v := by
  rcases dropComment_cases s.toList with hsame | ⟨a,w,r,t,hs,hdrop,hw,ht⟩
  · rw [hsame, String.ofList_toList] at h
    have hno : '#' ∉ s.toList := by
      intro hmem
      rw [← h] at hv
      exact hv (mem_strip_of_not_space hmem (by decide))
    rw [beforeHash_eq_self hno, h]
  · rw [hdrop, strip_append_space ht] at h
    have hno : ∀ c ∈ a ++ w, decide (c ≠ '#') = true := by
      intro c hc
      refine decide_eq_true (fun heq => ?_)
      subst heq
      rcases List.mem_append.mp hc with hc | hc
      · rw [← h] at hv
        exact hv (mem_strip_of_not_space (by rwa [String.toList_ofList]) (by decide))
      · exact absurd (hw _ hc) (by decide)
    rw [hs, List.takeWhile_append_of_pos hno, List.takeWhile_cons_of_neg (by simp), List.append_nil, strip_append_space hw, h]

section
variable {env env' : Env} {values : Values}

theorem appliedEnv_eq_some {saved : Values} (h : (saved.any (fun p => '\x00' ∈ p.2.toList)) = false) :
    appliedEnv env saved = some (fun k => (saved.get k).or (env k)) := if_neg (by simp [h])

theorem appliedEnv_apply (hnodup : (values.map Prod.fst).Nodup) (hkeys : ∀ p ∈ values, p.1 ∈ managed)
    (h : appliedEnv env (changedValues env values) = some env') {k v : String} (hp : (k,v) ∈ values) :
    env' k = if v = currentOf env k then env k else some v := by
  unfold appliedEnv at h
  split at h
  · cases h
  · cases h
    dsimp only
    split
    · rename_i heq
      have hnone : (changedValues env values).get k = none := by
        unfold Values.get
        rw [Option.map_eq_none_iff, List.find?_eq_none]
        intro q hq hqk
        have hkey : q.1 = k := by simpa using hqk
        obtain ⟨-,hget,hne⟩ := mem_changedValues.mp hq
        rw [hkey] at hget hne
        rw [get_of_mem hnodup hp] at hget
        exact hne ((Option.some.inj hget).symm.trans heq)
      rw [hnone, Option.none_or]
    · rename_i hne
      have hmem : (k,v) ∈ changedValues env values := mem_changedValues.mpr ⟨hkeys _ hp,get_of_mem hnodup hp,hne⟩
      have hnodup' : ((changedValues env values).map Prod.fst).Nodup := by
        rw [keys_changedValues]
        exact changedKeys_nodup
      rw [get_of_mem hnodup' hmem, Option.some_or]

variable {k v d : String}

theorem envstr_text (hget : env' k = if v = currentOf env k then env k else some v) (hk : k ∉ secretKeys)
    (hv : '#' ∉ v.toList) (hd : d = "" ∨ v ≠ "") : envstr env' k d = strip v := by
  unfold envstr
  rw [hget]
  split
  · rename_i heq
    rw [currentOf, if_neg hk, shown] at heq
    cases hs : env k with
    | none =>
      rw [hs] at heq
      have hempty : v = "" := heq
      rw [hempty, hd.resolve_right (not_not.mpr hempty)]
      rfl
    | some s =>
      rw [hs] at heq
      rw [Option.getD_some] at heq ⊢
      rw [strip_beforeHash_of_shown heq.symm hv, heq, strip_strip]
  · rw [Option.getD_some, beforeHash_eq_self hv]

/-- A secret is read as it is exactly when `_envstr` would not change it. -/
theorem envstr_secret (hget : env' k = if v = currentOf env k then env k else some v) (hk : k ∈ secretKeys) :
    envstr env' k "" = v ↔ Plain v := by
  unfold envstr
  rw [hget]
  split
  · rename_i heq
    rw [currentOf, if_pos hk] at heq
    have hstrip : strip v = v := by rw [heq, strip_strip]
    constructor
    · intro hread
      refine ⟨?_,hstrip⟩
      rw [← hread]
      exact hash_not_mem_strip_beforeHash _
    · intro hplain
      have hno : '#' ∉ ((env k).getD "").toList := by
        intro hmem
        have hmem := mem_strip_of_not_space hmem (by decide)
        rw [← heq] at hmem
        exact hplain.1 hmem
      rw [beforeHash_eq_self hno, ← heq]
  · rw [Option.getD_some]
    constructor
    · intro hread
      have hno : '#' ∉ v.toList := by
        rw [← hread]
        exact hash_not_mem_strip_beforeHash _
      rw [beforeHash_eq_self hno] at hread
      exact ⟨hno,hread⟩
    · intro hplain
      rw [beforeHash_eq_self hplain.1, hplain.2]

theorem plain_of_typed {typed : String} (h : '#' ∉ typed.toList) : Plain (strip typed) :=
  ⟨fun hmem => h (mem_of_mem_strip hmem),strip_strip typed⟩

/-- What `int` reads has no `#`. -/
theorem hash_not_mem_of_pyInt {T : CharTable} {s : String} (h : (pyInt T s).isSome) : '#' ∉ s.toList := by
  have hdigits : ∀ cs, (intDigits T cs).isSome → '#' ∉ cs := by
    intro cs hcs hmem
    rw [intDigits, Option.isSome_map] at hcs
    rw [← show ['_'].intercalate (cs.splitOn '_') = cs from List.intercalate_splitOn '_'] at hmem
    rcases LineEdit.mem_intercalate hmem with hsep | ⟨g,hg,hmem⟩
    · exact absurd hsep (by decide)
    · have hgroup := IpAddress.mapM_isSome hcs g hg
      split at hgroup
      · cases hgroup
      · have hchar := IpAddress.mapM_isSome hgroup '#' hmem
        rw [T.decimal_ascii _ (by decide)] at hchar
        cases hchar
  have hsome : ∀ {cs : List Char} {f : ℤ → ℤ}, (Option.map f (do let n ← intDigits T cs; pure (n : ℤ))).isSome → (intDigits T cs).isSome := by
    intro cs f h
    cases hd : intDigits T cs with
    | none => simp [hd] at h
    | some n => rfl
  intro hmem
  have hmem : '#' ∈ (strip s).toList := mem_strip_of_not_space hmem (by decide)
  unfold pyInt at h
  split at h
  · rename_i cs hcs
    rw [hcs] at hmem
    exact hdigits cs (hsome h) ((List.mem_cons.mp hmem).resolve_left (by decide))
  · rename_i cs hcs
    rw [hcs] at hmem
    exact hdigits cs (hsome h) ((List.mem_cons.mp hmem).resolve_left (by decide))
  · exact hdigits _ (hsome h) hmem

end

/-! ## The two forms -/

section
variable {P : PrintTable} {U : CaseMap} {T : CharTable} {env env' : Env} {form : Form}

theorem strip_portText (form : Form) : strip (portText form) = portText form := by
  unfold portText
  by_cases hport : field form "mt_port" = ""
  · rw [hport]
    cases useSsl form <;> decide
  · rw [orElse_some hport]
    exact strip_strip _

theorem portText_ne (form : Form) : portText form ≠ "" := by
  unfold portText
  by_cases hport : field form "mt_port" = ""
  · rw [hport]
    cases useSsl form <;> decide
  · rwa [orElse_some hport]

theorem lower_text {s : String} (h : s.toList.all (fun c => c.toNat < 128 ∧ c.toLower = c) = true) : U.lower s = s := by
  have hchars : ∀ c ∈ s.toList, c.toNat < 128 ∧ c.toLower = c := fun c hc => of_decide_eq_true (List.all_eq_true.mp h c hc)
  apply String.toList_inj.mp
  rw [U.lower_ascii s (fun c hc => (hchars c hc).1)]
  exact (List.map_congr_left (fun c hc => (hchars c hc).2)).trans (List.map_id _)

theorem orNone_inj {v w : String} (h : orNone v = orNone w) : v = w := by
  unfold orNone at h
  split at h <;> split at h
  · rename_i hv hw
    rw [hv, hw]
  · cases h
  · cases h
  · exact Option.some.inj h

theorem hash_not_mem_of_all {s : String} {p : Char → Bool} (hp : p '#' = false) (h : s.toList.all p = true) : '#' ∉ s.toList := by
  intro hmem
  rw [List.all_eq_true.mp h _ hmem] at hp
  cases hp

theorem strip_field (form : Form) (k : String) : strip (field form k) = field form k := strip_strip _

theorem routerOff (h : routerOn form = false) : field form "mt_host" = "" ∧ field form "mt_username" = "" := by
  obtain ⟨hhost,huser⟩ := Bool.or_eq_false_iff.mp h
  exact ⟨by simpa using hhost,by simpa using huser⟩

theorem router_get (happlied : appliedEnv env (changedValues env (routerValues env form)) = some env') {k v : String}
    (hp : (k,v) ∈ routerValues env form) : env' k = if v = currentOf env k then env k else some v :=
  appliedEnv_apply routerValues_nodup (fun _ hq => managed_of_routerValues hq) happlied hp

section
variable (happlied : appliedEnv env (changedValues env (routerValues env form)) = some env')
include happlied

theorem reads_host (h : Accepted P T env form) : (mikroTik U T env').host = field form "mt_host" := by
  have hhash : '#' ∉ (field form "mt_host").toList := by
    cases hon : routerOn form with
    | true =>
      have hchars := wholeText_strip (h.router hon).host
      exact hash_not_mem_of_all (p := isHostChar) (by decide) (Bool.and_eq_true _ _ ▸ hchars).2
    | false =>
      rw [(routerOff hon).1]
      decide
  exact (envstr_text (router_get happlied (by simp [routerValues])) (by decide) hhash (Or.inl rfl)).trans (strip_field form _)

theorem reads_username (h : Accepted P T env form) : (mikroTik U T env').username = field form "mt_username" := by
  have hhash : '#' ∉ (field form "mt_username").toList := by
    cases hon : routerOn form with
    | true => exact (h.router hon).username_hash
    | false =>
      rw [(routerOff hon).2]
      decide
  exact (envstr_text (router_get happlied (by simp [routerValues])) (by decide) hhash (Or.inl rfl)).trans (strip_field form _)

theorem reads_useSsl : (mikroTik U T env').useSsl = useSsl form := by
  have hread : envstr env' "MT_USE_SSL" "false" = strip (if useSsl form then "true" else "false") :=
    envstr_text (router_get happlied (by simp [routerValues])) (by decide) (by cases useSsl form <;> decide)
      (Or.inr (by cases useSsl form <;> decide))
  change decide (U.lower (envstr env' "MT_USE_SSL" "false") ∈ ["1","true","yes"]) = _
  rw [hread]
  cases useSsl form with
  | true =>
    rw [if_pos rfl, show strip "true" = "true" by decide, lower_text (by decide)]
    decide
  | false =>
    rw [if_neg (by decide), show strip "false" = "false" by decide, lower_text (by decide)]
    decide

theorem reads_password_iff : (mikroTik U T env').password = routerPassword env form ↔
    (routerPassword env form = strip ((env "MT_PASSWORD").getD "") → (env "MT_PASSWORD").getD "" = routerPassword env form) := by
  have hcurrent : currentOf env "MT_PASSWORD" = strip ((env "MT_PASSWORD").getD "") := if_pos (by decide)
  change ( env' "MT_PASSWORD").getD "" = _ ↔ _
  rw [@router_get env env' form happlied "MT_PASSWORD" (routerPassword env form) (by simp [routerValues]), hcurrent]
  by_cases heq : routerPassword env form = strip ((env "MT_PASSWORD").getD "")
  · rw [if_pos heq]
    exact ⟨fun hread _ => hread,fun hread => hread heq⟩
  · rw [if_neg heq, Option.getD_some]
    exact ⟨fun _ h => absurd h heq,fun _ => rfl⟩

theorem reads_port (hsome : (pyInt T (portText form)).isSome) :
    pyInt T (portText form) = some (mikroTik U T env').port := by
  have hread : envstr env' "MT_PORT" "" = portText form :=
    (envstr_text (router_get happlied (by simp [routerValues])) (by decide) (hash_not_mem_of_pyInt hsome) (Or.inl rfl)).trans
      (strip_portText form)
  obtain ⟨n,hn⟩ := Option.isSome_iff_exists.mp hsome
  have hport : envint T env' "MT_PORT" 8728 = n := by
    unfold envint
    simp only [hread, hn, portText_ne form, if_false, Option.getD_some]
  unfold mikroTik
  rw [hn, hport]

theorem reads_source_iff (h : Accepted P T env form) : seedLocalSource env' = some (lapiUrl form,lapiKey env form) ↔
    strip (lapiUrl form) = lapiUrl form ∧ Plain (lapiKey env form) := by
  have hurl : envstr env' "CROWDSEC_LAPI_URL" "http://127.0.0.1:8080" = strip (lapiUrl form) :=
    envstr_text (router_get happlied (by simp [routerValues])) (by decide) h.url_hash (Or.inr h.url_ne)
  have hkey : envstr env' "CROWDSEC_BOUNCER_KEY" "" = lapiKey env form ↔ Plain (lapiKey env form) :=
    envstr_secret (router_get happlied (by simp [routerValues])) (by decide)
  rw [← hkey, seedLocalSource, hurl]
  by_cases hempty : envstr env' "CROWDSEC_BOUNCER_KEY" "" = ""
  · rw [hempty]
    constructor
    · intro hnone
      cases hnone
    · rintro ⟨-,hboth⟩
      exact absurd hboth.symm h.key_ne
  · rw [if_neg hempty]
    simp

end

theorem plain_lapiKey_iff (h : Accepted P T env form) : Plain (lapiKey env form) ↔
    (strip (raw form "lapi_key") = "" → Plain ((env "CROWDSEC_BOUNCER_KEY").getD "")) := by
  rw [lapiKey, secretOr]
  by_cases hblank : strip (raw form "lapi_key") = ""
  · rw [if_pos hblank]
    exact ⟨fun hp _ => hp,fun hp => hp hblank⟩
  · rw [if_neg hblank]
    have htyped : raw form "lapi_key" ≠ "" := by
      intro hraw
      rw [hraw] at hblank
      exact hblank (by decide)
    exact ⟨fun _ hb => absurd hb hblank,fun _ => plain_of_typed (h.key htyped).2⟩

theorem routerReads_iff (h : Accepted P T env form)
    (happlied : appliedEnv env (changedValues env (routerValues env form)) = some env') :
    RouterReads U T env form env' ↔ RouterReadable T env form := by
  constructor
  · intro hreads
    obtain ⟨hurl,hkey⟩ := (reads_source_iff happlied h).mp hreads.source
    refine ⟨hurl,(plain_lapiKey_iff h).mp hkey,fun _ => ?_,(reads_password_iff happlied).mp hreads.password⟩
    rw [hreads.port]
    rfl
  · intro hread
    have hport : (pyInt T (portText form)).isSome := by
      cases hon : routerOn form with
      | true =>
        obtain ⟨n,hn,-⟩ := (h.router hon).port
        rw [hn]
        rfl
      | false => exact hread.port hon
    exact ⟨reads_host happlied h,reads_username happlied h,(reads_password_iff happlied).mpr hread.password,
      reads_port happlied hport,reads_useSsl happlied,
      (reads_source_iff happlied h).mpr ⟨hread.url,(plain_lapiKey_iff h).mpr hread.key⟩⟩

theorem isSpace_of_isRegionChar {c : Char} (h : isRegionChar c = true) : isSpace c = false := by
  have hlower : c.isLower = true → 97 ≤ c.toNat ∧ c.toNat ≤ 122 := by
    intro hl
    have hval : (decide (c.val ≥ 'a'.val) && decide (c.val ≤ 'z'.val)) = true := hl
    rw [Bool.and_eq_true, decide_eq_true_eq, decide_eq_true_eq] at hval
    exact hval
  simp only [isRegionChar, Bool.or_eq_true, decide_eq_true_eq] at h
  rcases h with (h | h) | rfl
  · have hrange := hlower h
    unfold isSpace
    simp
    omega
  · exact isSpace_of_isDigit h
  · decide

theorem B2Accepted.bucket_ne (h : B2Accepted P env form) : field form "s3_bucket" ≠ "" := by
  intro hempty
  have hchars := h.bucket
  rw [hempty] at hchars
  exact absurd hchars (by decide)

theorem b2_get (happlied : appliedEnv env (changedValues env (b2Values env form)) = some env') {k v : String}
    (hmem : (k,v) ∈ b2Values env form) : env' k = if v = currentOf env k then env k else some v :=
  appliedEnv_apply b2Values_nodup (fun _ hq => managed_of_b2Values hq) happlied hmem

section
variable (happlied : appliedEnv env (changedValues env (b2Values env form)) = some env')
include happlied

theorem reads_endpoint (h : B2Accepted P env form) : envstr env' "BACKUP_S3_ENDPOINT" "" = strip (s3Endpoint form) := by
  refine envstr_text (b2_get happlied (by simp [b2Values])) (by decide) ?_ (Or.inl rfl)
  by_cases hempty : s3Endpoint form = ""
  · rw [hempty]
    decide
  · exact (h.endpoint hempty).2

theorem reads_region (h : B2Accepted P env form) :
    envstr env' "BACKUP_S3_REGION" "" = orElse (some (s3Region form)) "us-east-1" := by
  have hchars : ∀ c ∈ (orElse (some (s3Region form)) "us-east-1").toList, isRegionChar c = true := by
    by_cases hempty : s3Region form = ""
    · rw [hempty]
      exact List.all_eq_true.mp (by decide)
    · rw [orElse_some hempty]
      exact List.all_eq_true.mp (Bool.and_eq_true _ _ ▸ h.region hempty).2
  refine (envstr_text (b2_get happlied (by simp [b2Values])) (by decide) ?_ (Or.inl rfl)).trans
    (strip_eq_self (fun c hc => isSpace_of_isRegionChar (hchars c hc)))
  exact fun hmem => absurd (hchars _ hmem) (by decide)

theorem reads_bucket (h : B2Accepted P env form) : envstr env' "BACKUP_S3_BUCKET" "" = field form "s3_bucket" := by
  have hchars := wholeText_strip h.bucket
  simp only [Bool.and_eq_true] at hchars
  have hhash : '#' ∉ (field form "s3_bucket").toList := hash_not_mem_of_all (p := isBucketChar) (by decide) hchars.1.1.2
  exact (envstr_text (b2_get happlied (by simp [b2Values])) (by decide) hhash (Or.inl rfl)).trans (strip_field form _)

theorem reads_keyId (h : B2Accepted P env form) : envstr env' "BACKUP_S3_KEY" "" = field form "s3_key" :=
  (envstr_text (b2_get happlied (by simp [b2Values])) (by decide) h.keyId.2 (Or.inl rfl)).trans (strip_field form _)

theorem reads_s3Secret_iff : envstr env' "BACKUP_S3_SECRET" "" = s3Secret env form ↔ Plain (s3Secret env form) :=
  envstr_secret (b2_get happlied (by simp [b2Values])) (by decide)

/-- The client of an accepted form has everything as submitted, but for the ends of the endpoint, and the secret it reads. -/
theorem s3Backend_eq (h : B2Accepted P env form) {secret : String} (hread : envstr env' "BACKUP_S3_SECRET" "" = secret)
    (hne : secret ≠ "") : s3Backend env' = some ⟨orNone (strip (s3Endpoint form)),
      orElse (some (s3Region form)) "us-east-1",field form "s3_bucket",field form "s3_key",secret⟩ := by
  have hregion_ne : orElse (some (s3Region form)) "us-east-1" ≠ "" := by
    by_cases hempty : s3Region form = ""
    · rw [hempty]
      decide
    · rwa [orElse_some hempty]
  unfold s3Backend
  simp only [reads_bucket happlied h, reads_keyId happlied h, reads_endpoint happlied h, reads_region happlied h, hread,
    h.bucket_ne, h.keyId_ne, hne, or_self, if_false]
  rw [orElse_some hregion_ne]

theorem b2Reads_iff (h : B2Accepted P env form) : B2Reads env form env' ↔ B2Readable env form := by
  constructor
  · rintro ⟨hreads,-⟩
    have hne : envstr env' "BACKUP_S3_SECRET" "" ≠ "" := by
      intro hempty
      unfold s3Backend at hreads
      simp only [hempty, or_true, if_true] at hreads
      cases hreads
    rw [s3Backend_eq happlied h rfl hne] at hreads
    obtain ⟨hend,-,-,-,hsec⟩ := S3Client.mk.inj (Option.some.inj hreads)
    exact ⟨orNone_inj hend,(reads_s3Secret_iff happlied).mp hsec⟩
  · rintro ⟨hend,hplain⟩
    have hread := (reads_s3Secret_iff happlied).mpr hplain
    refine ⟨?_,?_⟩
    · rw [s3Backend_eq happlied h hread h.secret_ne, hend]
    · unfold offsiteConfigured
      simp [reads_bucket happlied h, reads_keyId happlied h, hread, h.bucket_ne, h.keyId_ne, h.secret_ne]

end

end

/-- After a save of what changed in an accepted form, the consumers read the submitted values exactly
when the address ends in no white space, the secrets pass `_envstr` unchanged, a router that is turned
off has a number as its port, and the password is no trimmed copy of the current one. -/
theorem consumers_read_form (P : PrintTable) (U : CaseMap) (T : CharTable) (refused : String → Bool) (env env' : Env)
    (form : Form) (values : Values) (h : appliedEnv env (changedValues env values) = some env') :
    (validate P T refused env form = some (values,[]) → (RouterReads U T env form env' ↔ RouterReadable T env form)) ∧
    (validateB2 P refused env form = some (values,[]) → (B2Reads env form env' ↔ B2Readable env form)) := by
  constructor
  · intro hvalid
    obtain ⟨rfl,hacc⟩ := validate_accepted hvalid
    exact routerReads_iff hacc h
  · intro hvalid
    obtain ⟨rfl,hacc⟩ := validateB2_accepted hvalid
    exact b2Reads_iff h hacc

/-- The form of a bucket at AWS with the given application key. -/
def bucketForm (secret : String) : Form := fun k =>
  match k with
  | "s3_bucket" => some "protek-backup"
  | "s3_key" => some "0021f3"
  | "s3_secret" => some secret
  | _ => none

theorem consumers_read_form_example : ∃ env', appliedEnv noEnv (changedValues noEnv (b2Values noEnv (bucketForm "K002x/y+z"))) = some env' ∧
    B2Reads noEnv (bucketForm "K002x/y+z") env' := by
  have happlied := @appliedEnv_eq_some noEnv (changedValues noEnv (b2Values noEnv (bucketForm "K002x/y+z"))) (by decide +kernel)
  refine ⟨_,happlied,((consumers_read_form PrintTable.ascii CaseMap.ascii CharTable.ascii (fun _ => false) noEnv _
    (bucketForm "K002x/y+z") _ happlied).2 (by decide +kernel)).mpr ⟨by decide +kernel,?_⟩⟩
  unfold Plain
  decide +kernel

/-- An application key with a `#` is accepted, and cut there by its reader. -/
theorem application_key_cut : ∃ env', validateB2 PrintTable.ascii (fun _ => false) noEnv (bucketForm "K002x#y") =
      some (b2Values noEnv (bucketForm "K002x#y"),[]) ∧
    appliedEnv noEnv (changedValues noEnv (b2Values noEnv (bucketForm "K002x#y"))) = some env' ∧
    ¬ B2Reads noEnv (bucketForm "K002x#y") env' ∧ (s3Backend env').map S3Client.secret = some "K002x" := by
  have happlied := @appliedEnv_eq_some noEnv (changedValues noEnv (b2Values noEnv (bucketForm "K002x#y"))) (by decide +kernel)
  have hread : (s3Backend (fun k => ((changedValues noEnv (b2Values noEnv (bucketForm "K002x#y"))).get k).or (noEnv k))).map
      S3Client.secret = some "K002x" := by decide +kernel
  have hsubmitted : s3Secret noEnv (bucketForm "K002x#y") = "K002x#y" := by decide +kernel
  refine ⟨_,by decide +kernel,happlied,fun hreads => ?_,hread⟩
  rw [hreads.backend, Option.map_some, hsubmitted] at hread
  exact absurd (Option.some.inj hread) (by decide)

end Protek.Connection
