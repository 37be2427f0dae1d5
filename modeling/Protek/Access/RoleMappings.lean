import Protek.Access.Users

/-! # The two single sign-on mappings

`role_for_claims` maps the claims of an OIDC login to a role, `role_for_attributes` the
attributes of a SAML login. Each has a gate on the address and its domain, and after it
the same order of group lists and default role.
-/
namespace Protek.Access
open Foundation Foundation.PyText

/-- A value that an identity provider sends. -/
inductive ClaimValue
  | text (s : String)
  | texts (l : List String)
  | flag (b : Bool)
  deriving DecidableEq, Repr

abbrev Claims := String → Option ClaimValue

/-- What Python raises where a text or a list was expected. -/
inductive MappingError
  | attributeError
  | typeError
  deriving DecidableEq, Repr

def ClaimValue.truthy : ClaimValue → Bool
  | .text s => s ≠ ""
  | .texts l => l ≠ []
  | .flag b => b

/-- `d.get(k) or …`. -/
def getTruthy (claims : Claims) (k : String) : Option ClaimValue := (claims k).filter ClaimValue.truthy

/-- `_split`. -/
def splitList (s : String) : List String := ((split s ',').map strip).filter (fun x => x ≠ "")

/-- The variables of one of the two methods, OIDC or SAML. -/
structure Method where
  domains : String
  groupsAdmin : String
  groupsOperator : String
  groupsViewer : String
  defaultRole : String

def OIDC : Method := ⟨"OIDC_ALLOWED_DOMAINS","OIDC_GROUPS_ADMIN","OIDC_GROUPS_OPERATOR","OIDC_GROUPS_VIEWER","OIDC_DEFAULT_ROLE"⟩

def SAML : Method := ⟨"SAML_ALLOWED_DOMAINS","SAML_GROUPS_ADMIN","SAML_GROUPS_OPERATOR","SAML_GROUPS_VIEWER","SAML_DEFAULT_ROLE"⟩

section
variable (U : CaseMap) (environ : Environ)

def Method.listOf (name : String) : List String := splitList (clean environ name)

/-- The part that the two mappings write alike: the first group list that has one of the groups,
or else the default role. -/
def Method.groupRole (m : Method) (groups : List String) : Option String :=
  if groups.any (· ∈ Method.listOf environ m.groupsAdmin) then some "admin"
  else if groups.any (· ∈ Method.listOf environ m.groupsOperator) then some "operator"
  else if groups.any (· ∈ Method.listOf environ m.groupsViewer) then some "viewer"
  else if clean environ m.defaultRole ∈ ["admin","operator","viewer"] then some (clean environ m.defaultRole)
  else none

/-- The groups of a value: a text is one group, and a flag cannot be iterated over. -/
def groupsOf : Option ClaimValue → Except MappingError (List String)
  | none => .ok []
  | some (.text s) => .ok [s]
  | some (.texts l) => .ok l
  | some (.flag _) => .error .typeError

/-- `(claims.get("email") or "").lower()`. -/
def oidcEmail (claims : Claims) : Except MappingError String :=
  match getTruthy claims "email" with
  | none => .ok (U.lower "")
  | some (.text s) => .ok (U.lower s)
  | some _ => .error .attributeError

def oidcGroupsClaim : String :=
  if clean environ "OIDC_GROUPS_CLAIM" = "" then "groups" else clean environ "OIDC_GROUPS_CLAIM"

/-- The gate of OIDC. An address that is empty falls through it when the provider does not
say that it is unverified. -/
def oidcGate (claims : Claims) (email : String) : Bool :=
  if email = "" ∨ unverified = true then
    if (claims "email_verified").isSome ∧ unverified = true then false else passes
  else passes
where
  unverified : Bool :=
    match claims "email_verified" with
    | none => false
    | some v => !v.truthy
  passes : Bool :=
    let domains := Method.listOf environ OIDC.domains
    domains = [] || domains.any (fun d => endsWith email ("@" ++ d))

def roleForClaims (claims : Claims) : Except MappingError (Option String) := do
  let email ← oidcEmail U claims
  if oidcGate environ claims email = false then .ok none
  else
    let groups ← groupsOf (getTruthy claims (oidcGroupsClaim environ))
    .ok (OIDC.groupRole environ groups)

/-- `_first`. -/
def first : ClaimValue → String
  | .texts l => l.headD ""
  | .text s => s
  | .flag b => if b then "True" else ""

def samlEmailAttr : String :=
  if clean environ "SAML_EMAIL_ATTR" = "" then "http://schemas.xmlsoap.org/ws/2005/05/identity/claims/emailaddress"
  else clean environ "SAML_EMAIL_ATTR"

def samlGroupsAttr : String :=
  if clean environ "SAML_GROUPS_ATTR" = "" then "groups" else clean environ "SAML_GROUPS_ATTR"

/-- `email.split("@", 1)[1] if "@" in email else ""`. -/
def afterFirstAt (s : String) : String :=
  match s.toList.dropWhile (· ≠ '@') with
  | [] => ""
  | _ :: rest => String.ofList rest

def samlEmail (attrs : Claims) : String :=
  strip (U.lower (first (((getTruthy attrs (samlEmailAttr environ)).or (getTruthy attrs "email")).getD (.texts []))))

def samlGate (email : String) : Bool :=
  let allowed := Method.listOf environ SAML.domains
  email ≠ "" && (allowed = [] || afterFirstAt email ∈ allowed)

def roleForAttributes (attrs : Claims) : Except MappingError (Option String) :=
  if samlGate environ (samlEmail U environ attrs) = false then .ok none
  else (groupsOf (getTruthy attrs (samlGroupsAttr environ))).map (SAML.groupRole environ)

end

/-! ## One identity at both doors -/

structure Identity where
  email : String
  groups : List String
  deriving DecidableEq, Repr

/-- A list of groups as a value: a list, or one group as a text, or nothing for no group. -/
inductive SendsGroups (groups : List String) : Option ClaimValue → Prop
  | list : SendsGroups groups (some (.texts groups))
  | single (g : String) (hg : g ≠ "") (h : groups = [g]) : SendsGroups groups (some (.text g))
  | absent (h : groups = []) : SendsGroups groups none

/-- An address as a value: a text, or a list of which the first one counts. -/
inductive SendsEmail (e : String) : Option ClaimValue → Prop
  | list (more : List String) : SendsEmail e (some (.texts (e :: more)))
  | single (he : e ≠ "") : SendsEmail e (some (.text e))

/-- The claims of an identity whose provider has verified the address or does not speak of it. -/
structure Claimed (environ : Environ) (p : Identity) (claims : Claims) : Prop where
  email : claims "email" = some (.text p.email) ∨ p.email = "" ∧ claims "email" = none
  verified : claims "email_verified" = none ∨ claims "email_verified" = some (.flag true)
  groups : SendsGroups p.groups (claims (oidcGroupsClaim environ))

/-- The attributes of an identity: the address stands in its attribute or else in `email`. -/
structure Attributed (environ : Environ) (p : Identity) (attrs : Claims) : Prop where
  email : SendsEmail p.email (attrs (samlEmailAttr environ)) ∨
    getTruthy attrs (samlEmailAttr environ) = none ∧
      (SendsEmail p.email (attrs "email") ∨ p.email = "" ∧ getTruthy attrs "email" = none)
  groups : SendsGroups p.groups (attrs (samlGroupsAttr environ))

/-- The lists and the default role are entered alike for both methods. -/
structure SameSettings (environ : Environ) : Prop where
  domains : environ OIDC.domains = environ SAML.domains
  groupsAdmin : environ OIDC.groupsAdmin = environ SAML.groupsAdmin
  groupsOperator : environ OIDC.groupsOperator = environ SAML.groupsOperator
  groupsViewer : environ OIDC.groupsViewer = environ SAML.groupsViewer
  defaultRole : environ OIDC.defaultRole = environ SAML.defaultRole

/-! ## Where the doors differ -/

section
variable {U : CaseMap} {environ : Environ} {p : Identity} {claims attrs : Claims}

theorem getTruthy_of_eq {k : String} {v : ClaimValue} (h : claims k = some v) (hv : v.truthy = true) :
    getTruthy claims k = some v := by
  unfold getTruthy
  rw [h, Option.filter_some_pos hv]

theorem getTruthy_of_falsy {k : String} {v : ClaimValue} (h : claims k = some v) (hv : v.truthy = false) :
    getTruthy claims k = none := by
  unfold getTruthy
  rw [h, Option.filter_some_neg hv]

theorem getTruthy_of_none {k : String} (h : claims k = none) : getTruthy claims k = none := by
  unfold getTruthy
  rw [h]
  rfl

theorem groupsOf_of_sends {k : String} (h : SendsGroups p.groups (claims k)) :
    groupsOf (getTruthy claims k) = .ok p.groups := by
  cases hv : claims k with
  | none =>
    rw [hv] at h
    cases h with
    | absent hnil => rw [getTruthy_of_none hv, hnil]; rfl
  | some v =>
    rw [hv] at h
    cases h with
    | list =>
      by_cases hnil : p.groups = []
      · rw [getTruthy_of_falsy hv (by simp [ClaimValue.truthy, hnil]), hnil]
        rfl
      · rw [getTruthy_of_eq hv (by simp [ClaimValue.truthy, hnil])]
        rfl
    | single g hg hs =>
      rw [getTruthy_of_eq hv (by simp [ClaimValue.truthy, hg]), hs]
      rfl

theorem oidcEmail_of_claimed (h : Claimed environ p claims) : oidcEmail U claims = .ok (U.lower p.email) := by
  unfold oidcEmail
  rcases h.email with he | ⟨he,hnone⟩
  · by_cases hne : p.email = ""
    · rw [getTruthy_of_falsy he (by simp [ClaimValue.truthy, hne]), hne]
    · rw [getTruthy_of_eq he (by simp [ClaimValue.truthy, hne])]
  · rw [getTruthy_of_none hnone, he]

theorem first_of_sends {k : String} {e : String} (h : SendsEmail e (attrs k)) :
    ∃ v, getTruthy attrs k = some v ∧ first v = e := by
  cases hv : attrs k with
  | none => rw [hv] at h; cases h
  | some v =>
    rw [hv] at h
    cases h with
    | list more => exact ⟨_,getTruthy_of_eq hv rfl,rfl⟩
    | single he => exact ⟨_,getTruthy_of_eq hv (by simp [ClaimValue.truthy, he]),rfl⟩

theorem samlEmail_of_attributed (h : Attributed environ p attrs) :
    samlEmail U environ attrs = strip (U.lower p.email) := by
  unfold samlEmail
  rcases h.email with he | ⟨hnone,he | ⟨he,hnone'⟩⟩
  · obtain ⟨v,hv,hf⟩ := first_of_sends he
    rw [hv, Option.some_or, Option.getD_some, hf]
  · obtain ⟨v,hv,hf⟩ := first_of_sends he
    rw [hnone, hv, Option.none_or, Option.getD_some, hf]
  · rw [hnone, hnone', he]
    rfl

/-- With an address that is verified or not spoken of, the gate is the list of domains alone. -/
theorem oidcGate_of_claimed (h : Claimed environ p claims) (email : String) :
    oidcGate environ claims email = oidcGate.passes environ email := by
  unfold oidcGate oidcGate.unverified
  rcases h.verified with hv | hv <;> simp [hv, ClaimValue.truthy]

theorem clean_eq_of_eq {a b : String} (h : environ a = environ b) : clean environ a = clean environ b := by
  unfold clean
  rw [h]

theorem groupRole_same (h : SameSettings environ) (groups : List String) :
    SAML.groupRole environ groups = OIDC.groupRole environ groups := by
  unfold Method.groupRole Method.listOf
  rw [clean_eq_of_eq h.groupsAdmin, clean_eq_of_eq h.groupsOperator, clean_eq_of_eq h.groupsViewer,
    clean_eq_of_eq h.defaultRole]

theorem mem_splitList_ne {s d : String} (h : d ∈ splitList s) : d ≠ "" := by
  unfold splitList at h
  simpa using (List.mem_filter.mp h).2

/-- Some tail of the address behind an `@` is a listed domain. -/
def ListedTail (domains : List String) (email : String) : Prop :=
  ∃ d ∈ domains, ∃ user, email.toList = user ++ '@' :: d.toList

theorem endsWith_at_iff {email d : String} :
    endsWith email ("@" ++ d) = true ↔ ∃ user, email.toList = user ++ '@' :: d.toList := by
  unfold endsWith
  rw [List.isSuffixOf_iff_suffix, String.toList_append]
  constructor
  · rintro ⟨user,hu⟩
    exact ⟨user,hu.symm⟩
  · rintro ⟨user,hu⟩
    exact ⟨user,hu.symm⟩

theorem passes_iff {email : String} : oidcGate.passes environ email = true ↔
    Method.listOf environ OIDC.domains = [] ∨ ListedTail (Method.listOf environ OIDC.domains) email := by
  unfold oidcGate.passes ListedTail
  simp [endsWith_at_iff]

theorem samlGate_iff (h : SameSettings environ) {email : String} : samlGate environ email = true ↔ email ≠ "" ∧
    (Method.listOf environ OIDC.domains = [] ∨ afterFirstAt email ∈ Method.listOf environ OIDC.domains) := by
  have hd : Method.listOf environ SAML.domains = Method.listOf environ OIDC.domains := by
    unfold Method.listOf
    rw [clean_eq_of_eq h.domains]
  unfold samlGate
  simp [hd]

/-- Each mapping is its gate and then the role of the groups. -/
theorem roleForClaims_eq (h : Claimed environ p claims) : roleForClaims U environ claims =
    .ok (if oidcGate.passes environ (U.lower p.email) = true then OIDC.groupRole environ p.groups else none) := by
  unfold roleForClaims
  rw [oidcEmail_of_claimed h]
  change (if oidcGate environ claims (U.lower p.email) = false then _ else _) = _
  rw [oidcGate_of_claimed h]
  cases oidcGate.passes environ (U.lower p.email) with
  | false => rfl
  | true =>
    rw [groupsOf_of_sends h.groups]
    rfl

theorem roleForAttributes_eq (hs : SameSettings environ) (h : Attributed environ p attrs) :
    roleForAttributes U environ attrs =
      .ok (if samlGate environ (strip (U.lower p.email)) = true then OIDC.groupRole environ p.groups else none) := by
  unfold roleForAttributes
  rw [samlEmail_of_attributed h]
  cases samlGate environ (strip (U.lower p.email)) with
  | false => rfl
  | true =>
    rw [groupsOf_of_sends h.groups]
    change Except.ok _ = Except.ok _
    rw [groupRole_same hs]
    rfl

theorem afterFirstAt_ne {email : String} (h : afterFirstAt email ≠ "") : email ≠ "" := by
  rintro rfl
  exact h rfl

/-- An address with one `@` and no white space around it meets both gates alike. -/
theorem gates_agree_of_plain (hs : SameSettings environ) {user host : List Char} {email : String}
    (he : email.toList = user ++ '@' :: host) (hu : '@' ∉ user) (hh : '@' ∉ host) (hstrip : strip email = email) :
    oidcGate.passes environ email = true ↔ samlGate environ (strip email) = true := by
  have hafter : afterFirstAt email = String.ofList host := by
    unfold afterFirstAt
    rw [he, List.dropWhile_append_of_pos (by
      intro c hc
      simp only [ne_eq, decide_not, Bool.not_eq_eq_eq_not, Bool.not_true, decide_eq_false_iff_not]
      rintro rfl
      exact hu hc)]
    simp
  have hne : email ≠ "" := by
    rintro rfl
    simp at he
  rw [hstrip, passes_iff, samlGate_iff hs, hafter]
  refine ⟨fun h => ⟨hne,h.imp id ?_⟩,fun h => h.2.imp id ?_⟩
  · rintro ⟨d,hd,user',he'⟩
    rw [he] at he'
    -- there is one `@` to split at
    have hsplit : host = d.toList := by
      rcases List.append_eq_append_iff.mp he' with ⟨l,h1,h2⟩ | ⟨l,h1,h2⟩
      · cases l with
        | nil => exact (List.cons.inj h2).2
        | cons c rest =>
          have hc := (List.cons.inj h2).1
          have hmem : '@' ∈ host := by
            rw [(List.cons.inj h2).2]
            simp
          exact absurd hmem hh
      · cases l with
        | nil => exact ((List.cons.inj h2).2).symm
        | cons c rest =>
          have hc := (List.cons.inj h2).1
          exact absurd (by rw [h1, ← hc]; simp) hu
    rw [hsplit, String.ofList_toList]
    exact hd
  · intro hmem
    exact ⟨_,hmem,user,by rw [he, String.toList_ofList]⟩

end

/-- For one identity under one set of settings the two mappings agree exactly when no role is
there to be had, or without a list of domains the address is not blank, or with one some tail of
the address behind an `@` is listed just if what follows its first `@` is. -/
theorem mappings_agree_iff (U : CaseMap) (environ : Environ) (p : Identity) (claims attrs : Claims)
    (hs : SameSettings environ) (hc : Claimed environ p claims) (ha : Attributed environ p attrs) :
    roleForClaims U environ claims = roleForAttributes U environ attrs ↔
      OIDC.groupRole environ p.groups = none ∨
      (Method.listOf environ OIDC.domains = [] ∧ strip (U.lower p.email) ≠ "") ∨
      (Method.listOf environ OIDC.domains ≠ [] ∧ (ListedTail (Method.listOf environ OIDC.domains) (U.lower p.email) ↔
        afterFirstAt (strip (U.lower p.email)) ∈ Method.listOf environ OIDC.domains)) := by
  have hgates : roleForClaims U environ claims = roleForAttributes U environ attrs ↔
      OIDC.groupRole environ p.groups = none ∨
        (oidcGate.passes environ (U.lower p.email) = true ↔ samlGate environ (strip (U.lower p.email)) = true) := by
    rw [roleForClaims_eq hc, roleForAttributes_eq hs ha, Except.ok.injEq]
    cases OIDC.groupRole environ p.groups <;> cases oidcGate.passes environ (U.lower p.email) <;>
      cases samlGate environ (strip (U.lower p.email)) <;> simp
  rw [hgates, passes_iff, samlGate_iff hs]
  refine or_congr_right ?_
  by_cases hd : Method.listOf environ OIDC.domains = []
  · simp [hd]
  · have hmem : afterFirstAt (strip (U.lower p.email)) ∈ Method.listOf environ OIDC.domains →
        strip (U.lower p.email) ≠ "" := fun h => afterFirstAt_ne (mem_splitList_ne h)
    rw [and_iff_right_of_imp (fun h => hmem (h.resolve_left hd))]
    simp [hd]

/-- Both methods take everyone in as a viewer. -/
def openEnviron : Environ := fun k => if k = OIDC.defaultRole ∨ k = SAML.defaultRole then some "viewer" else none

theorem openEnviron_same : SameSettings openEnviron := by
  refine ⟨?_,?_,?_,?_,?_⟩ <;> decide

def claimsOf (email : String) : Claims := fun k => if k = "email" then some (.text email) else none

def attrsOf (email : String) : Claims := fun k =>
  if k = "http://schemas.xmlsoap.org/ws/2005/05/identity/claims/emailaddress" then some (.texts [email]) else none

theorem claimsOf_claimed (email : String) : Claimed openEnviron ⟨email,[]⟩ (claimsOf email) :=
  ⟨Or.inl rfl,Or.inl (by simp [claimsOf]),by
    have hk : oidcGroupsClaim openEnviron = "groups" := by decide
    rw [hk]
    exact .absent rfl⟩

theorem attrsOf_attributed (email : String) : Attributed openEnviron ⟨email,[]⟩ (attrsOf email) :=
  ⟨Or.inl (by
    have hk : samlEmailAttr openEnviron = "http://schemas.xmlsoap.org/ws/2005/05/identity/claims/emailaddress" := by decide
    rw [hk]
    exact .list []),by
    have hk : samlGroupsAttr openEnviron = "groups" := by decide
    rw [hk]
    exact .absent rfl⟩

/-- An address like any other gets the same role at both doors. -/
theorem mappings_agree_iff_example : roleForClaims CaseMap.ascii openEnviron (claimsOf "Ann@Example.com") =
    roleForAttributes CaseMap.ascii openEnviron (attrsOf "Ann@Example.com") :=
  (mappings_agree_iff CaseMap.ascii openEnviron ⟨"Ann@Example.com",[]⟩ _ _ openEnviron_same (claimsOf_claimed _)
    (attrsOf_attributed _)).mpr (Or.inr (Or.inl (by decide)))

/-- An identity without an address is let in by OIDC and turned away by SAML. -/
theorem empty_email_admitted : SameSettings openEnviron ∧ Claimed openEnviron ⟨"",[]⟩ (claimsOf "") ∧
    Attributed openEnviron ⟨"",[]⟩ (attrsOf "") ∧
    roleForClaims CaseMap.ascii openEnviron (claimsOf "") = .ok (some "viewer") ∧
    roleForAttributes CaseMap.ascii openEnviron (attrsOf "") = .ok none ∧
    roleForClaims CaseMap.ascii openEnviron (claimsOf "") ≠ roleForAttributes CaseMap.ascii openEnviron (attrsOf "") := by
  have hoidc : roleForClaims CaseMap.ascii openEnviron (claimsOf "") = .ok (some "viewer") := by decide
  have hsaml : roleForAttributes CaseMap.ascii openEnviron (attrsOf "") = .ok none := by decide
  exact ⟨openEnviron_same,claimsOf_claimed "",attrsOf_attributed "",hoidc,hsaml,by rw [hoidc, hsaml]; simp⟩

end Protek.Access
