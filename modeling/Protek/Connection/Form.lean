import Protek.Foundation.KeyedTable
import Protek.Foundation.PyText

/-! # The connection forms

`validate` and `validate_b2` turn a submitted form into values for `.env`; a secret that
is left blank keeps its current value. `changed_keys` picks the values that differ from
what this worker uses.
-/
namespace Protek.Connection
open Foundation Foundation.PyText

abbrev Env := String → Option String

/-- Nothing is set. -/
def noEnv : Env := fun _ => none

abbrev Form := String → Option String

/-- A dictionary of texts in its order. -/
abbrev Values := List (String × String)

def Values.get (values : Values) (k : String) : Option String := (values.find? (fun p => p.1 = k)).map Prod.snd

/-- `str.isprintable` of one character, fixed on ASCII. -/
structure PrintTable where
  isPrintable : Char → Bool
  isPrintable_ascii : ∀ c, c.toNat < 128 → isPrintable c = (decide (32 ≤ c.toNat) && decide (c.toNat ≤ 126))

/-- No character beyond ASCII is printable. -/
def PrintTable.ascii : PrintTable := ⟨fun c => decide (32 ≤ c.toNat) && decide (c.toNat ≤ 126),fun _ _ => rfl⟩

def lapiKeys : List String := ["CROWDSEC_LAPI_URL","CROWDSEC_BOUNCER_KEY"]

def mtKeys : List String := ["MT_HOST","MT_PORT","MT_USE_SSL","MT_USERNAME","MT_PASSWORD"]

def b2Keys : List String :=
  ["BACKUP_S3_ENDPOINT","BACKUP_S3_REGION","BACKUP_S3_BUCKET","BACKUP_S3_KEY","BACKUP_S3_SECRET"]

def managed : List String := lapiKeys ++ mtKeys ++ b2Keys

def secretKeys : List String := ["CROWDSEC_BOUNCER_KEY","MT_PASSWORD","BACKUP_S3_SECRET"]

/-! ## The current values -/

/-- What `\s+#.*$` leaves of a text that begins with its `#`, `none` where it does not match. -/
def commentTail : List Char → Option (List Char)
  | '#' :: cs =>
    if '\n' ∉ cs then some []
    else if cs.getLast? = some '\n' ∧ '\n' ∉ cs.dropLast then some ['\n']
    else none
  | _ => none

/-- `_INLINE_COMMENT.sub("", …)`. -/
def dropComment : List Char → List Char
  | [] => []
  | c :: cs =>
    match commentTail (cs.dropWhile isSpace) with
    | some tail => if isSpace c then tail else c :: dropComment cs
    | none => c :: dropComment cs

/-- `_env`: a value without an inline comment and the white space around it. -/
def shown (env : Env) (name : String) : String := strip (String.ofList (dropComment ((env name).getD "").toList))

/-- The value that `changed_keys` compares with. -/
def currentOf (env : Env) (k : String) : String :=
  if k ∈ secretKeys then strip ((env k).getD "") else shown env k

def changedKeys (env : Env) (values : Values) : List String :=
  managed.filter (fun k => (values.get k).any (fun v => v ≠ currentOf env k))

/-- `{k: values[k] for k in changed}`. -/
def changedValues (env : Env) (values : Values) : Values :=
  (changedKeys env values).filterMap (fun k => (values.get k).map (fun v => (k,v)))

/-! ## Tests of one field -/

section
variable (P : PrintTable) (T : CharTable) (refused : String → Bool)

def badChars (v : String) : Bool := v.toList.any (fun c => c = '\x27' || c = '\x5c' || !P.isPrintable c)

def isSchemeChar (c : Char) : Bool := c.isAlphanum || c = '+' || c = '-' || c = '.'

/-- Scheme and netloc of `urlparse(url)`, `none` where it raises ValueError: `refused` tells the
netlocs with brackets or compatibility characters that it does not take. -/
def urlparse (url : String) : Option (String × String) :=
  let cs := (url.toList.dropWhile (fun c => c.toNat ≤ 32)).filter (fun c => c ≠ '\t' && c ≠ '\r' && c ≠ '\n')
  let before := cs.takeWhile (· ≠ ':')
  let hasScheme := ':' ∈ cs ∧ (before.head?.any Char.isAlpha) ∧ before.all isSchemeChar
  let rest := if hasScheme then cs.drop (before.length + 1) else cs
  let netloc := match rest with
    | '/' :: '/' :: r => String.ofList (r.takeWhile (fun c => c ≠ '/' && c ≠ '?' && c ≠ '#'))
    | _ => ""
  if refused netloc then none
  else some (if hasScheme then String.ofList (before.map Char.toLower) else "",netloc)

/-- `^…$` of a regular expression, whose `$` also matches before a final line feed. -/
def wholeText (p : List Char → Bool) (cs : List Char) : Bool := p cs || (cs.getLast? = some '\n' && p cs.dropLast)

def isHostChar (c : Char) : Bool := c.isAlphanum || c = '.' || c = ':' || c = '-' || c = '[' || c = ']'

/-- `_HOST_RE`. -/
def isHost (s : String) : Bool := wholeText (fun cs => cs ≠ [] && cs.all isHostChar) s.toList

def isBucketChar (c : Char) : Bool := c.isAlphanum || c = '.' || c = '_' || c = '-'

/-- `_BUCKET_RE`. -/
def isBucket (s : String) : Bool :=
  wholeText (fun cs => decide (3 ≤ cs.length ∧ cs.length ≤ 63) && cs.all isBucketChar && cs.head?.any Char.isAlphanum &&
    cs.getLast?.any Char.isAlphanum) s.toList

def isRegionChar (c : Char) : Bool := c.isLower || c.isDigit || c = '-'

/-- The pattern `[a-z0-9-]{2,40}`. -/
def isRegion (s : String) : Bool := decide (2 ≤ s.toList.length ∧ s.toList.length ≤ 40) && s.toList.all isRegionChar

/-- The group of `_B2_ENDPOINT_RE`. -/
def b2Region (endpoint : String) : Option String :=
  let cs := if endpoint.toList.getLast? = some '\n' then endpoint.toList.dropLast else endpoint.toList
  let cs := if cs.getLast? = some '/' then cs.dropLast else cs
  let r := (cs.drop 11).take (cs.length - 27)
  if "https://s3.".toList.isPrefixOf cs ∧ ".backblazeb2.com".toList.isSuffixOf cs ∧ 28 ≤ cs.length ∧ r.all isRegionChar then
    some (String.ofList r)
  else none

/-- `str.isdigit`. -/
def isdigit (s : String) : Bool := s.toList ≠ [] && s.toList.all T.isDigit

def field (form : Form) (k : String) : String := strip ((form k).getD "")

def raw (form : Form) (k : String) : String := (form k).getD ""

/-- A secret of the form, or the current one where it is left blank. -/
def secretOr (env : Env) (typed name : String) : String := if typed = "" then (env name).getD "" else typed

/-! ## The CrowdSec and router form -/

def lapiUrl (form : Form) : String := rstripChar (field form "lapi_url") '/'

def lapiKey (env : Env) (form : Form) : String := secretOr env (strip (raw form "lapi_key")) "CROWDSEC_BOUNCER_KEY"

def useSsl (form : Form) : Bool := raw form "mt_use_ssl" ∈ ["1","on","true","yes"]

def portText (form : Form) : String := orElse (some (field form "mt_port")) (if useSsl form then "8729" else "8728")

def routerOn (form : Form) : Bool := field form "mt_host" ≠ "" || field form "mt_username" ≠ ""

def routerPassword (env : Env) (form : Form) : String :=
  if routerOn form then secretOr env (raw form "mt_password") "MT_PASSWORD" else ""

/-- The first message whose test is met, as an `if … elif` chain appends it. -/
def firstOf (l : List (Bool × String)) : List String := (l.find? Prod.fst).elim [] (fun p => [p.2])

def routerErrors (env : Env) (form : Form) : Option (List String) :=
  let host := field form "mt_host"
  let username := field form "mt_username"
  let password := raw form "mt_password"
  if routerOn form then
    let port := portText form
    let number : Option Bool := if isdigit T port then (pyInt T port).map (fun n => decide (1 ≤ n ∧ n ≤ 65535)) else some false
    number.map (fun ok =>
      firstOf [(host = "","Router address is required when a username is set."),
        (!isHost host,"Router address should be an IP or hostname.")] ++
      firstOf [(username = "","Router API username is required."),
        (badChars P username || '#' ∈ username.toList || ' ' ∈ username.toList,
          "Router username can't contain spaces, #, quotes, backslashes or control characters.")] ++
      firstOf [(!ok,"Router API port must be a number from 1 to 65535.")] ++
      firstOf [(password ≠ "" && badChars P password,
        "Router password can't contain a single quote, a backslash or control characters.")] ++
      firstOf [(host ≠ "" && username ≠ "" && routerPassword env form = "","Router API password is required.")])
  else some []

def routerValues (env : Env) (form : Form) : Values :=
  [("CROWDSEC_LAPI_URL",lapiUrl form),("CROWDSEC_BOUNCER_KEY",lapiKey env form),("MT_HOST",field form "mt_host"),
    ("MT_PORT",portText form),("MT_USE_SSL",if useSsl form then "true" else "false"),
    ("MT_USERNAME",field form "mt_username"),("MT_PASSWORD",routerPassword env form)]

/-- The values and the errors of the form, `none` where a test raises ValueError. -/
def validate (env : Env) (form : Form) : Option (Values × List String) :=
  let url := lapiUrl form
  let typed := raw form "lapi_key"
  (urlparse refused url).bind (fun p =>
    (routerErrors P T env form).map (fun errors =>
      (routerValues env form,
      firstOf [(!(p.1 = "http" || p.1 = "https") || p.2 = "","CrowdSec LAPI URL must look like http://host:8080."),
        ('#' ∈ url.toList || badChars P url,
          "CrowdSec LAPI URL can't contain #, quotes, backslashes or control characters.")] ++
      firstOf [(typed ≠ "" && (badChars P typed || '#' ∈ typed.toList || ' ' ∈ (strip typed).toList),
        "The bouncer key can't contain spaces, #, quotes, backslashes or control characters.")] ++
      firstOf [(lapiKey env form = "","A bouncer key is required (create one with: cscli bouncers add protek).")] ++
      errors)))

/-! ## The backup bucket form -/

def s3Endpoint (form : Form) : String := rstripChar (field form "s3_endpoint") '/'

def s3Region (form : Form) : String :=
  if field form "s3_region" = "" then (b2Region (s3Endpoint form)).getD "" else field form "s3_region"

def s3Secret (env : Env) (form : Form) : String := secretOr env (strip (raw form "s3_secret")) "BACKUP_S3_SECRET"

def b2Values (env : Env) (form : Form) : Values :=
  [("BACKUP_S3_ENDPOINT",s3Endpoint form),("BACKUP_S3_REGION",orElse (some (s3Region form)) "us-east-1"),
    ("BACKUP_S3_BUCKET",field form "s3_bucket"),("BACKUP_S3_KEY",field form "s3_key"),("BACKUP_S3_SECRET",s3Secret env form)]

def validateB2 (env : Env) (form : Form) : Option (Values × List String) :=
  let endpoint := s3Endpoint form
  let region := s3Region form
  let bucket := field form "s3_bucket"
  let keyId := field form "s3_key"
  let typed := raw form "s3_secret"
  let endpointErrors : Option (List String) :=
    if endpoint = "" then some []
    else (urlparse refused endpoint).map (fun p =>
      firstOf [(p.1 ≠ "https" || p.2 = "" || badChars P endpoint || '#' ∈ endpoint.toList,
        "Endpoint must be an https:// URL, e.g. https://s3.us-west-002.backblazeb2.com.")])
  endpointErrors.map (fun errors =>
    (b2Values env form,
    errors ++
    firstOf [(region ≠ "" && !isRegion region,"Region should look like us-west-002 or eu-central-003.")] ++
    firstOf [(!isBucket bucket,"Bucket name: 3–63 letters, numbers, dots, dashes or underscores.")] ++
    firstOf [(keyId = "" || badChars P keyId || ' ' ∈ keyId.toList || '#' ∈ keyId.toList,
      "Key ID is required (Backblaze: the application key's keyID).")] ++
    firstOf [(typed ≠ "" && (badChars P typed || ' ' ∈ (strip typed).toList),
      "The application key can't contain spaces, quotes, backslashes or control characters.")] ++
    firstOf [(s3Secret env form = "","The application key is required.")]))

/-! ## What an accepted form holds -/

theorem firstOf_eq_nil {l : List (Bool × String)} : firstOf l = [] ↔ ∀ p ∈ l, p.1 = false := by
  unfold firstOf
  cases h : l.find? Prod.fst with
  | none => simpa using List.find?_eq_none.mp h
  | some p =>
    have hp := List.find?_some h
    constructor
    · intro hcons
      cases hcons
    · intro hall
      rw [hall p (List.mem_of_find?_eq_some h)] at hp
      cases hp

/-- A stripped text does not end in a line feed. -/
theorem wholeText_strip {p : List Char → Bool} {s : String} (h : wholeText p (strip s).toList = true) :
    p (strip s).toList = true := by
  rcases Bool.or_eq_true _ _ ▸ h with h | h
  · exact h
  · obtain ⟨hlast,-⟩ := Bool.and_eq_true _ _ ▸ h
    exact absurd (getLast?_strip (of_decide_eq_true hlast)) (by decide)

structure RouterFields (env : Env) (form : Form) : Prop where
  host : isHost (field form "mt_host") = true
  username_ne : field form "mt_username" ≠ ""
  username : badChars P (field form "mt_username") = false
  username_hash : '#' ∉ (field form "mt_username").toList
  digits : isdigit T (portText form) = true
  port : ∃ n, pyInt T (portText form) = some n ∧ 1 ≤ n ∧ n ≤ 65535
  password : raw form "mt_password" ≠ "" → badChars P (raw form "mt_password") = false

structure Accepted (env : Env) (form : Form) : Prop where
  url_ne : lapiUrl form ≠ ""
  url : badChars P (lapiUrl form) = false
  url_hash : '#' ∉ (lapiUrl form).toList
  key : raw form "lapi_key" ≠ "" → badChars P (raw form "lapi_key") = false ∧ '#' ∉ (raw form "lapi_key").toList
  key_ne : lapiKey env form ≠ ""
  router : routerOn form = true → RouterFields P T env form

structure B2Accepted (env : Env) (form : Form) : Prop where
  endpoint : s3Endpoint form ≠ "" → badChars P (s3Endpoint form) = false ∧ '#' ∉ (s3Endpoint form).toList
  region : s3Region form ≠ "" → isRegion (s3Region form) = true
  bucket : isBucket (field form "s3_bucket") = true
  keyId : badChars P (field form "s3_key") = false ∧ '#' ∉ (field form "s3_key").toList
  keyId_ne : field form "s3_key" ≠ ""
  secret : raw form "s3_secret" ≠ "" → badChars P (raw form "s3_secret") = false
  secret_ne : s3Secret env form ≠ ""

variable {P T refused} {env : Env} {form : Form} {values : Values}

theorem routerFields_of_errors (h : routerErrors P T env form = some []) (hon : routerOn form = true) :
    RouterFields P T env form := by
  unfold routerErrors at h
  rw [if_pos hon] at h
  obtain ⟨ok,hok,herr⟩ := Option.map_eq_some_iff.mp h
  simp only [List.append_eq_nil_iff, firstOf_eq_nil] at herr
  obtain ⟨⟨⟨⟨hhost,huser⟩,hport⟩,hpw⟩,-⟩ := herr
  simp at hhost huser hport hpw
  subst hport
  split at hok
  · rename_i hdigits
    obtain ⟨n,hn,hrange⟩ := Option.map_eq_some_iff.mp hok
    exact ⟨hhost.2,huser.1,huser.2.1.1,huser.2.1.2,hdigits,⟨n,hn,of_decide_eq_true hrange⟩,hpw⟩
  · cases hok

theorem urlparse_empty {p : String × String} (h : urlparse refused "" = some p) : p.1 = "" := by
  have hparse : urlparse refused "" = if refused "" then none else some ("","") := rfl
  rw [hparse] at h
  split at h
  · cases h
  · cases h
    rfl

theorem validate_accepted (h : validate P T refused env form = some (values,[])) :
    values = routerValues env form ∧ Accepted P T env form := by
  unfold validate at h
  obtain ⟨p,hp,h⟩ := Option.bind_eq_some_iff.mp h
  obtain ⟨errors,herr,h⟩ := Option.map_eq_some_iff.mp h
  obtain ⟨rfl,hnil⟩ := Prod.mk.inj h
  simp only [List.append_eq_nil_iff, firstOf_eq_nil] at hnil
  obtain ⟨⟨⟨hurl,hkey⟩,hmissing⟩,rfl⟩ := hnil
  simp at hurl hkey hmissing
  have hne : lapiUrl form ≠ "" := by
    intro hempty
    rw [hempty] at hp
    have hscheme := urlparse_empty hp
    rcases hurl with ⟨⟨hurl,-⟩,-⟩
    rw [hscheme] at hurl
    exact absurd (hurl (by decide)) (by decide)
  exact ⟨rfl,hne,hurl.2.2,hurl.2.1,fun hne => (hkey hne).1,hmissing,routerFields_of_errors herr⟩

theorem validateB2_accepted (h : validateB2 P refused env form = some (values,[])) :
    values = b2Values env form ∧ B2Accepted P env form := by
  unfold validateB2 at h
  obtain ⟨errors,herr,h⟩ := Option.map_eq_some_iff.mp h
  obtain ⟨rfl,hnil⟩ := Prod.mk.inj h
  simp only [List.append_eq_nil_iff, firstOf_eq_nil] at hnil
  obtain ⟨⟨⟨⟨⟨rfl,hregion⟩,hbucket⟩,hkeyId⟩,hsecret⟩,hmissing⟩ := hnil
  simp at hregion hbucket hkeyId hsecret hmissing
  refine ⟨rfl,fun hne => ?_,hregion,hbucket,⟨hkeyId.1.1.2,hkeyId.2⟩,hkeyId.1.1.1,fun hne => (hsecret hne).1,hmissing⟩
  rw [if_neg hne] at herr
  obtain ⟨q,-,hq⟩ := Option.map_eq_some_iff.mp herr
  have hall := firstOf_eq_nil.mp hq
  simp at hall
  exact ⟨hall.1.2,hall.2⟩

end

/-! ## The changed values -/

section
variable {env : Env} {form : Form} {values : Values}

theorem managed_nodup : managed.Nodup := by decide

theorem mem_changedValues {p : String × String} :
    p ∈ changedValues env values ↔ p.1 ∈ managed ∧ values.get p.1 = some p.2 ∧ p.2 ≠ currentOf env p.1 := by
  unfold changedValues changedKeys
  rw [List.mem_filterMap]
  constructor
  · rintro ⟨k,hk,hp⟩
    obtain ⟨v,hv,rfl⟩ := Option.map_eq_some_iff.mp hp
    obtain ⟨hmem,hne⟩ := List.mem_filter.mp hk
    rw [hv] at hne
    exact ⟨hmem,hv,by simpa using hne⟩
  · rintro ⟨hmem,hv,hne⟩
    exact ⟨p.1,List.mem_filter.mpr ⟨hmem,by simpa [hv] using hne⟩,by rw [hv]; rfl⟩

theorem keys_changedValues : (changedValues env values).map Prod.fst = changedKeys env values := by
  have hall : ∀ l : List String, (∀ k ∈ l, (values.get k).isSome) →
      (l.filterMap (fun k => (values.get k).map (fun v => (k,v)))).map Prod.fst = l := by
    intro l hl
    induction l with
    | nil => rfl
    | cons k l ih =>
      obtain ⟨v,hv⟩ := Option.isSome_iff_exists.mp (hl k List.mem_cons_self)
      simp only [List.filterMap_cons, hv, Option.map_some, List.map_cons]
      rw [ih (fun j hj => hl j (List.mem_cons_of_mem _ hj))]
  refine hall _ (fun k hk => ?_)
  have hany := (List.mem_filter.mp hk).2
  cases hv : values.get k with
  | none => simp [hv] at hany
  | some v => rfl

theorem changedKeys_nodup : (changedKeys env values).Nodup := managed_nodup.filter _

theorem keys_routerValues (env : Env) (form : Form) : (routerValues env form).map Prod.fst = lapiKeys ++ mtKeys := rfl

theorem keys_b2Values (env : Env) (form : Form) : (b2Values env form).map Prod.fst = b2Keys := rfl

theorem routerValues_nodup : ((routerValues env form).map Prod.fst).Nodup := by
  rw [keys_routerValues]
  decide

theorem b2Values_nodup : ((b2Values env form).map Prod.fst).Nodup := by
  rw [keys_b2Values]
  decide

theorem managed_of_routerValues {p : String × String} (hp : p ∈ routerValues env form) : p.1 ∈ managed := by
  have hmem : p.1 ∈ lapiKeys ++ mtKeys := keys_routerValues env form ▸ List.mem_map_of_mem hp
  exact List.mem_append_left _ hmem

theorem managed_of_b2Values {p : String × String} (hp : p ∈ b2Values env form) : p.1 ∈ managed := by
  have hmem : p.1 ∈ b2Keys := keys_b2Values env form ▸ List.mem_map_of_mem hp
  exact List.mem_append_right _ hmem

/-- A key has its value once. -/
theorem get_of_mem {l : Values} (h : (l.map Prod.fst).Nodup) {p : String × String} (hp : p ∈ l) : l.get p.1 = some p.2 := by
  rw [Values.get, KeyedTable.find_of_mem h hp, Option.map_some]

end

end Protek.Connection
