import Protek.Foundation.IpAddress
import Protek.Foundation.PyText
import Protek.Foundation.WhatwgUrl

/-! # The redirect after a login

`safe_next` lets a `?next=` target through when it is a path on this site. Before the
last test it hands the target to `urlparse`, which raises where the text reads as an
authority that is not well formed.
-/
namespace Protek.Access
open Foundation Foundation.PyText Foundation.IpAddress Foundation.WhatwgUrl

/-! ## `urlparse` -/

/-- `url.lstrip(_WHATWG_C0_CONTROL_OR_SPACE)`, less the `_UNSAFE_URL_BYTES_TO_REMOVE`. -/
def cleanUrl (cs : List Char) : List Char := (cs.dropWhile isC0OrSpace).filter (fun c => !isTabOrNewline c)

/-- The scheme, empty without one, and the rest of the URL. -/
def splitScheme (cs : List Char) : List Char × List Char :=
  match cs.dropWhile (fun c => c ≠ ':') with
  | [] => ([],cs)
  | _ :: rest =>
    let name := cs.takeWhile (fun c => c ≠ ':')
    if name.head?.any Char.isAlpha && name.all isSchemeChar then (name.map Char.toLower,rest) else ([],cs)

/-- What stands behind two slashes. -/
def authorityOf : List Char → Option (List Char)
  | '/' :: '/' :: rest => some rest
  | _ => none

/-- `_splitnetloc`. -/
def splitNetloc (cs : List Char) : List Char := cs.takeWhile (fun c => !(c = '/' || c = '?' || c = '#'))

def isHexDigit (c : Char) : Bool := (digit 16 c).isSome

/-- `\Av[a-fA-F0-9]+\..+\Z`. -/
def isIpvFuture : List Char → Bool
  | 'v' :: cs =>
    match cs.dropWhile isHexDigit with
    | '.' :: c :: rest => cs.head? ≠ some '.' && (c :: rest).all (fun c => c ≠ '\n')
    | _ => false
  | _ => false

def checkBracketedHost (hostname : List Char) : Bool :=
  if hostname.head? = some 'v' then isIpvFuture hostname
  else (ipAddress (String.ofList hostname)).any (fun a => a.version = Version.v6)

def checkBracketedNetloc (netloc : List Char) : Bool :=
  let hostnameAndPort := netloc.rtakeWhile (fun c => c ≠ '@')
  match hostnameAndPort.dropWhile (fun c => c ≠ '[') with
  | [] => checkBracketedHost (hostnameAndPort.takeWhile (fun c => c ≠ ':'))
  | _ :: bracketed =>
    let port := (bracketed.dropWhile (fun c => c ≠ ']')).drop 1
    hostnameAndPort.head? = some '[' && (port = [] || port.head? = some ':') &&
      checkBracketedHost (bracketed.takeWhile (fun c => c ≠ ']'))

def checkBrackets (netloc : List Char) : Bool :=
  if '[' ∈ netloc ∧ ']' ∈ netloc then checkBracketedNetloc netloc else !('[' ∈ netloc) && !(']' ∈ netloc)

section
variable (nfkc : String → String)

/-- No character may turn into a delimiter under `nfkc`, which is `unicodedata.normalize('NFKC', …)`. -/
def checkNetloc (netloc : List Char) : Bool :=
  if netloc.all (fun c => c.toNat < 128) then true
  else
    let n := String.ofList (netloc.filter (fun c => !(c = '@' || c = ':' || c = '#' || c = '?')))
    nfkc n = n || !((nfkc n).toList.any (fun c => c = '/' || c = '?' || c = '#' || c = '@' || c = ':'))

/-- `scheme` and `netloc` of the result, `none` where it raises ValueError. -/
def urlparse (url : String) : Option (List Char × List Char) :=
  let r := splitScheme (cleanUrl url.toList)
  let netloc := (authorityOf r.2).elim [] splitNetloc
  if checkBrackets netloc && checkNetloc nfkc netloc then some (r.1,netloc) else none

/-- The tests of `safe_next` in front of `urlparse`. -/
def passesText (t : String) : Bool :=
  t ≠ "" && !(t.toList.any (fun c => c = '\r' || c = '\n' || c = '\t' || c = '\x00')) &&
    !(contains t "://" || startsWith t "//" || startsWith t "\\") &&
    !(startsWith t "/\\" || startsWith t "/%5C" || startsWith t "/%5c")

/-- `none` where `urlparse` raises: nothing catches that. -/
def safeNext (target : Option String) (fallback : String) : Option String :=
  match target with
  | none => some fallback
  | some target =>
    if target = "" then some fallback
    else
      let t := strip target
      if passesText t then
        match urlparse nfkc t with
        | none => none
        | some (scheme,netloc) =>
          if scheme ≠ [] ∨ netloc ≠ [] then some fallback
          else if startsWith t "/" then some t else some fallback
      else some fallback

/-- Behind its leading control characters the text is an authority that `urlparse` refuses. -/
def refusedAuthority (t : String) : Bool :=
  (authorityOf (t.toList.dropWhile isC0OrSpace)).any (fun rest =>
    !(checkBrackets (splitNetloc rest) && checkNetloc nfkc (splitNetloc rest)))

/-- The target passes the tests of the text, and is refused as an authority after that. -/
def Raises (target : Option String) : Prop :=
  ∃ s, target = some s ∧ passesText (strip s) = true ∧ refusedAuthority nfkc (strip s) = true

end

section
variable {nfkc : String → String} {t : String}

/-- What `passesText` says of the characters. -/
structure Passes (t : String) : Prop where
  clean : ∀ c ∈ t.toList, isTabOrNewline c = false
  noScheme : ∀ a b : List Char, t.toList ≠ a ++ ':' :: '/' :: '/' :: b
  single : ∀ rest, t.toList = '/' :: rest → ∀ c ∈ rest.head?, isSlash c = false

theorem passes_of_passesText (h : passesText t = true) : Passes t := by
  simp only [passesText, Bool.and_eq_true, Bool.not_eq_true', Bool.or_eq_false_iff] at h
  obtain ⟨⟨⟨-,hchars⟩,⟨hscheme,hdouble⟩,-⟩,⟨hback,-⟩,-⟩ := h
  refine ⟨fun c hc => ?_,fun a b he => ?_,fun rest he c hc => ?_⟩
  · have hnot := List.any_eq_false.mp hchars c hc
    simp only [Bool.or_eq_true, decide_eq_true_eq, not_or] at hnot
    obtain ⟨⟨⟨hr,hn⟩,ht⟩,-⟩ := hnot
    simp [isTabOrNewline, hr, hn, ht]
  · have hp : "://".toList = [':','/','/'] := rfl
    have hin : contains t "://" = true := contains_of_toList (he.trans (by rw [hp]; rfl))
    rw [hscheme] at hin
    cases hin
  · by_contra hslash
    obtain ⟨back,rfl⟩ := List.head?_eq_some_iff.mp (Option.mem_def.mp hc)
    rcases isSlash_iff.mp (Bool.eq_true_of_not_eq_false hslash) with rfl | rfl
    · have hp : "//".toList = ['/','/'] := rfl
      exact absurd (startsWith_of_toList he hp) (Bool.eq_false_iff.mp hdouble)
    · have hp : "/\\".toList = ['/','\\'] := rfl
      exact absurd (startsWith_of_toList he hp) (Bool.eq_false_iff.mp hback)

/-- Without tabs and newlines `urlparse` only drops the leading control characters. -/
theorem Passes.cleanUrl (h : Passes t) : cleanUrl t.toList = t.toList.dropWhile isC0OrSpace := by
  refine List.filter_eq_self.mpr (fun c hc => ?_)
  rw [h.clean c ((List.dropWhile_sublist _).subset hc), Bool.not_false]

/-- The URL is left whole, or starts with a letter and loses its scheme and the colon. -/
theorem splitScheme_cases (cs : List Char) : splitScheme cs = ([],cs) ∨
    ∃ name rest, cs = name ++ ':' :: rest ∧ (∃ c, name.head? = some c ∧ c.isAlpha = true) ∧
      splitScheme cs = (name.map Char.toLower,rest) := by
  rw [splitScheme]
  cases hrest : cs.dropWhile (fun c => c ≠ ':') with
  | nil => exact Or.inl rfl
  | cons c rest =>
    have hhead := List.head?_dropWhile_not (fun c => decide (c ≠ ':')) cs
    rw [hrest] at hhead
    obtain rfl : c = ':' := by simpa using hhead
    have hsplit : cs = cs.takeWhile (fun c => c ≠ ':') ++ ':' :: rest := by
      rw [← hrest, List.takeWhile_append_dropWhile]
    simp only
    split
    · next hname =>
      obtain ⟨b,hb,halpha⟩ := (Option.any_eq_true _ _).mp (Bool.and_eq_true_iff.mp hname).1
      exact Or.inr ⟨_,rest,hsplit,⟨b,hb,halpha⟩,rfl⟩
    · exact Or.inl rfl

theorem authorityOf_eq_some {cs rest : List Char} : authorityOf cs = some rest ↔ cs = '/' :: '/' :: rest := by
  constructor
  · intro h
    unfold authorityOf at h
    split at h
    · rw [Option.some.inj h]
    · cases h
  · rintro rfl
    rfl

/-- A scheme takes no slashes with it: none stand in front of it, and two behind it were refused before. -/
theorem Passes.authorityOf_splitScheme (h : Passes t) :
    authorityOf (splitScheme (t.toList.dropWhile isC0OrSpace)).2 = authorityOf (t.toList.dropWhile isC0OrSpace) := by
  rcases splitScheme_cases (t.toList.dropWhile isC0OrSpace) with hwhole | ⟨name,rest,hsplit,⟨c,hc,halpha⟩,hscheme⟩
  · rw [hwhole]
  · have hrest : authorityOf rest = none := by
      refine Option.eq_none_iff_forall_ne_some.mpr (fun b hb => ?_)
      have hfront : t.toList = t.toList.takeWhile isC0OrSpace ++ (name ++ ':' :: rest) := by
        rw [← hsplit, List.takeWhile_append_dropWhile]
      refine h.noScheme (t.toList.takeWhile isC0OrSpace ++ name) b (hfront.trans ?_)
      rw [authorityOf_eq_some.mp hb, List.append_assoc]
    have hname : authorityOf (name ++ ':' :: rest) = none := by
      refine Option.eq_none_iff_forall_ne_some.mpr (fun b hb => ?_)
      obtain ⟨back,rfl⟩ := List.head?_eq_some_iff.mp hc
      have hslash : c = '/' := (List.cons.inj (authorityOf_eq_some.mp hb)).1
      rw [hslash] at halpha
      exact absurd halpha (by decide)
    rw [hscheme, hsplit, hrest, hname]

theorem urlparse_eq_none (h : Passes t) : urlparse nfkc t = none ↔ refusedAuthority nfkc t = true := by
  rw [urlparse, refusedAuthority, h.cleanUrl]
  simp only [h.authorityOf_splitScheme]
  cases authorityOf (t.toList.dropWhile isC0OrSpace) with
  | none => simp [checkBrackets, checkNetloc]
  | some rest =>
    rw [Option.elim_some, Option.any_some]
    split
    · next hok => simp [hok]
    · next hok => simp [hok]

/-! ## Where the redirect leads -/

variable {target : Option String} {fallback u : String}

/-- What comes back is the fallback, or the stripped target where that passes and has one slash in front. -/
theorem safeNext_eq_some (h : safeNext nfkc target fallback = some u) :
    u = fallback ∨ ∃ s, target = some s ∧ u = strip s ∧ passesText u = true ∧ startsWith u "/" = true := by
  unfold safeNext at h
  split at h
  · exact Or.inl (Option.some.inj h).symm
  · next s =>
    split at h
    · exact Or.inl (Option.some.inj h).symm
    · simp only at h
      split at h
      · next hpass =>
        split at h
        · cases h
        · split at h
          · exact Or.inl (Option.some.inj h).symm
          · split at h
            · next hstart =>
              obtain rfl := Option.some.inj h
              exact Or.inr ⟨s,rfl,rfl,hpass,hstart⟩
            · exact Or.inl (Option.some.inj h).symm
      · exact Or.inl (Option.some.inj h).symm

theorem safeNext_eq_none : safeNext nfkc target fallback = none ↔ Raises nfkc target := by
  unfold safeNext Raises
  cases target with
  | none => simp
  | some s =>
    by_cases hempty : s = ""
    · have hfail : passesText (strip "") = false := by decide +kernel
      simp [hempty, hfail]
    · simp only [hempty, if_false, Option.some.injEq, exists_eq_left']
      by_cases hpass : passesText (strip s) = true
      · have hnone := @urlparse_eq_none nfkc _ (passes_of_passesText hpass)
        rw [if_pos hpass, and_iff_right hpass, ← hnone]
        cases urlparse nfkc (strip s) with
        | none => simp
        | some r =>
          simp only
          split
          · simp
          · split <;> simp
      · simp [hpass]

section
variable {H : Type*} {parseHost : List Char → Option H} {site : Site H}

/-- A target that passes and has a slash in front is a path on the site. -/
theorem Passes.sameOrigin (h : Passes t) (hstart : startsWith t "/" = true) : SameOrigin parseHost site t := by
  have hp : "/".toList = ['/'] := rfl
  rw [startsWith, hp, List.isPrefixOf_iff_prefix] at hstart
  obtain ⟨rest,hrest⟩ := hstart
  have ht : t.toList = '/' :: rest := hrest.symm
  exact sameOrigin_of_rooted ht (h.single rest ht) (fun c hc => h.clean c (ht ▸ List.mem_cons_of_mem _ hc))

/-- Whatever `safe_next` returns keeps the browser on the site. -/
theorem sameOrigin_of_safeNext (h : safeNext nfkc target "/" = some u) : SameOrigin parseHost site u := by
  rcases safeNext_eq_some h with rfl | ⟨s,-,-,hpass,hstart⟩
  · exact @sameOrigin_of_rooted H parseHost site "/" [] rfl (fun c hc => by cases hc) (fun c hc => by cases hc)
  · exact (passes_of_passesText hpass).sameOrigin hstart

/-- A target that raises starts with a control character that `str.strip` leaves and `urlparse` drops. -/
theorem Raises.control (h : Raises nfkc target) : ∃ s c, target = some s ∧ (strip s).toList.head? = some c ∧
    c.toNat < 28 ∧ isSpace c = false := by
  obtain ⟨s,rfl,hpass,hrefused⟩ := h
  obtain ⟨rest,hrest,-⟩ := (Option.any_eq_true _ _).mp hrefused
  have hdrop := authorityOf_eq_some.mp hrest
  cases ht : (strip s).toList with
  | nil =>
    rw [ht] at hdrop
    cases hdrop
  | cons c cs =>
    have hspace : isSpace c = false := head?_strip (by rw [ht]; rfl)
    have hcontrol : isC0OrSpace c = true := by
      by_contra hc
      rw [ht, List.dropWhile_cons_of_neg hc] at hdrop
      have hslash := (passes_of_passesText hpass).single ('/' :: rest) (ht.trans hdrop) '/' rfl
      exact absurd hslash (by decide)
    refine ⟨s,c,rfl,by rw [ht]; rfl,?_,hspace⟩
    simp only [isC0OrSpace, decide_eq_true_eq] at hcontrol
    simp only [isSpace, Bool.or_eq_false_iff, Bool.and_eq_false_iff, decide_eq_false_iff_not] at hspace
    omega

/-- A login redirects to its own site exactly when the target is not one that `urlparse` refuses. -/
theorem login_redirect_same_origin (nfkc : String → String) (parseHost : List Char → Option H) (site : Site H)
    (target : Option String) : (∃ u, safeNext nfkc target "/" = some u ∧ SameOrigin parseHost site u) ↔ ¬ Raises nfkc target := by
  constructor
  · rintro ⟨u,hu,-⟩ hraises
    rw [safeNext_eq_none.mpr hraises] at hu
    cases hu
  · intro hno
    obtain ⟨u,hu⟩ := Option.ne_none_iff_exists'.mp (fun h => hno (safeNext_eq_none.mp h))
    exact ⟨u,hu,sameOrigin_of_safeNext hu⟩

end

/-- Behind a control character an open bracket ends the request in an error instead of the fallback. -/
theorem login_redirect_raises :
    ¬ ∃ u, safeNext id (some "\x01//[") "/" = some u ∧ SameOrigin some ⟨"https","protek".toList,none,Or.inr rfl⟩ u := by
  have hnone : safeNext id (some "\x01//[") "/" = none := by decide +kernel
  rintro ⟨u,hu,-⟩
  rw [hnone] at hu
  cases hu

end
end Protek.Access
