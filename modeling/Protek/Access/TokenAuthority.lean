import Mathlib.Data.List.Dedup
import Mathlib.Data.List.Sort
import Mathlib.Data.List.Sublists
import Protek.Access.ApiTokens
import Protek.Foundation.Trace

/-! # What a token may do

Requests with tokens between creations, revocations, deletions and imports of bundles, which bring
back what they carry: a request is let through exactly when something still stands behind its token.
-/
namespace Protek.Access.TokenAuthority
open Foundation Foundation.PyText Foundation.Clock

/-! ## The gate -/

/-- `SCOPE_ORDER.get(s)`. -/
def rank (s : String) : Option ℕ := scopeOrder.idxOf? s

def hasScope (granted : List String) (required : String) : Bool :=
  required ∈ granted ||
  match rank required with
  | none => false
  | some need => granted.any (fun s => (rank s).any (fun n => need ≤ n))

/-- The token of a request: `Authorization: Bearer …`, or else `X-Protek-Token`. -/
def presented (authorization xToken : Option String) : String :=
  let header := authorization.getD ""
  if startsWith header "Bearer " then strip (String.ofList (header.toList.drop 7)) else strip (xToken.getD "")

inductive Reply
  | granted
  | unauthorized
  | insufficientScope (required : String) (granted : List String)
  deriving DecidableEq

section
variable (isAlnum : Char → Bool) (hash : String → String)

/-- The wrapper of `require_token`. -/
def requireToken (scope : String) (authorization xToken : Option String) (now usedAt : Instant) (ip : String) (t : ApiTokens) :
    Except TokenError (Reply × ApiTokens) :=
  let raw := presented authorization xToken
  if raw = "" then .ok (.unauthorized,t)
  else match lookup hash raw now usedAt ip t with
    | .error e => .error e
    | .ok (none,t') => .ok (.unauthorized,t')
    | .ok (some token,t') =>
      if hasScope token.scopes scope then .ok (.granted,t')
      else .ok (.insufficientScope scope (token.scopes.insertionSort (fun a b => a ≤ b)),t')

def revokeToken (t : ApiTokens) (tokenId : ℕ) : ApiTokens := t.update tokenId (fun r => { r with disabled := true }) (fun _ => rfl)

def deleteToken (t : ApiTokens) (tokenId : ℕ) : ApiTokens := { t with table := t.table.remove (fun r => r.id = tokenId) }

theorem id_tokenHash (r : ApiToken) : (id r).tokenHash = r.tokenHash := rfl

/-- The row of a bundle has the id or the hash of one that is there. -/
def clashes (r : ApiToken) (t : ApiTokens) : Bool := t.table.rows.any (fun q => q.id = r.id ∨ q.tokenHash = r.tokenHash)

/-- The statement of `import_bundle` for a row with its id: `INSERT OR IGNORE`, or `OR REPLACE`. -/
def insertToken (overwrite : Bool) (r : ApiToken) (t : ApiTokens) : ApiTokens :=
  if overwrite then ⟨(t.table.remove (fun q => q.id = r.id ∨ q.tokenHash = r.tokenHash)).upsert r id id_tokenHash,max t.seq r.id⟩
  else if clashes r t then t
  else ⟨t.table.upsert r id id_tokenHash,max t.seq r.id⟩

/-- `DELETE FROM api_tokens`, before the rows of an import that overwrites. -/
def clearTokens (t : ApiTokens) : ApiTokens := { t with table := t.table.remove (fun _ => true) }

def stampRow (usedAt : Instant) (ip : String) (r : ApiToken) : ApiToken := { r with lastUsedAt := some (isoformat usedAt), lastUsedIp := ip }

theorem stampRow_tokenHash (usedAt : Instant) (ip : String) (r : ApiToken) : (stampRow usedAt ip r).tokenHash = r.tokenHash := rfl

/-- The last statement of `lookup`. -/
def stamp (usedAt : Instant) (ip : String) (tokenId : ℕ) (t : ApiTokens) : ApiTokens :=
  t.update tokenId (stampRow usedAt ip) (stampRow_tokenHash usedAt ip)

/-! ## Runs, statement by statement -/

inductive Event
  | create (name scopes createdBy : String) (expiresAt : Option String) (secret : String) (now : Instant) (fresh : NewToken)
  | revoke (tokenId : ℕ)
  | delete (tokenId : ℕ)
  | clear
  | insert (overwrite : Bool) (row : ApiToken)
  | request (scope : String) (authorization xToken : Option String) (now usedAt : Instant) (ip : String) (reply : Reply)
  | raise (scope : String) (authorization xToken : Option String) (now usedAt : Instant) (ip : String)
  | stamp (usedAt : Instant) (ip : String) (tokenId : ℕ)

/-- A request answers by what it reads; its stamp may come any time later. -/
inductive Step : ApiTokens → Event → ApiTokens → Prop
  | create {t t' : ApiTokens} {name scopes createdBy : String} {expiresAt : Option String} {secret : String} {now : Instant} {fresh : NewToken}
      (h : createToken isAlnum hash name scopes createdBy expiresAt secret now t = .ok (fresh,t')) :
      Step t (.create name scopes createdBy expiresAt secret now fresh) t'
  | revoke {t : ApiTokens} {tokenId : ℕ} : Step t (.revoke tokenId) (revokeToken t tokenId)
  | delete {t : ApiTokens} {tokenId : ℕ} : Step t (.delete tokenId) (deleteToken t tokenId)
  | clear {t : ApiTokens} : Step t .clear (clearTokens t)
  | insert {t : ApiTokens} {overwrite : Bool} {row : ApiToken} : Step t (.insert overwrite row) (insertToken overwrite row t)
  | request {t t' : ApiTokens} {scope : String} {authorization xToken : Option String} {now usedAt : Instant} {ip : String} {reply : Reply}
      (h : requireToken hash scope authorization xToken now usedAt ip t = .ok (reply,t')) :
      Step t (.request scope authorization xToken now usedAt ip reply) t
  | raise {t : ApiTokens} {scope : String} {authorization xToken : Option String} {now usedAt : Instant} {ip : String} {e : TokenError}
      (h : requireToken hash scope authorization xToken now usedAt ip t = .error e) :
      Step t (.raise scope authorization xToken now usedAt ip) t
  | stamp {t : ApiTokens} {usedAt : Instant} {ip : String} {tokenId : ℕ} : Step t (.stamp usedAt ip tokenId) (stamp usedAt ip tokenId t)

abbrev Move := Transition ApiTokens Event

/-- What a token gives its bearer. -/
structure Grant where
  tokenId : ℕ
  scopes : List String
  expiresAt : Option String
  deriving DecidableEq

def ApiToken.grant (r : ApiToken) : Grant := ⟨r.id,scopeSet r.scopes,r.expiresAt⟩

/-- The enabled row of the hash gives the grant. -/
def Powers (h : String) (g : Grant) (t : ApiTokens) : Prop := ∃ r, t.table.find h = some r ∧ r.disabled = false ∧ ApiToken.grant r = g

/-- The token is created, or a bundle puts an enabled row of it in. -/
def Brings (h : String) (g : Grant) (m : Move) : Prop :=
  (∃ name asked createdBy secret now fresh, m.label = .create name asked createdBy g.expiresAt secret now fresh ∧ hash fresh.token = h ∧
    fresh.id = g.tokenId ∧ fresh.scopes = g.scopes) ∨
  ∃ overwrite row, m.label = .insert overwrite row ∧ (overwrite = true ∨ clashes row m.before = false) ∧ row.tokenHash = h ∧
    row.disabled = false ∧ ApiToken.grant row = g

/-- The token is revoked or deleted, or an import that overwrites takes its row out. -/
def Ends (h : String) (g : Grant) (m : Move) : Prop :=
  m.label = .revoke g.tokenId ∨ m.label = .delete g.tokenId ∨ m.label = .clear ∨
  ∃ row, m.label = .insert true row ∧ (row.id = g.tokenId ∨ row.tokenHash = h)

end

section
variable {isAlnum : Char → Bool} {hash : String → String} {t t' : ApiTokens} {h : String} {g : Grant} {text : String}

/-! ## What each statement does to the enabled row of a hash -/

/-- An update that keeps what a row grants changes no powers. -/
theorem powers_update {k : ℕ} {f : ApiToken → ApiToken} {hf : ∀ r, (f r).tokenHash = r.tokenHash}
    (hd : ∀ r, (f r).disabled = r.disabled) (hg : ∀ r, ApiToken.grant (f r) = ApiToken.grant r) :
    Powers h g (t.update k f hf) ↔ Powers h g t := by
  unfold Powers ApiTokens.update
  rw [KeyedTable.find_modify]
  have hsame : ∀ r : ApiToken, (if r.id = k then f r else r).disabled = r.disabled ∧
      ApiToken.grant (if r.id = k then f r else r) = ApiToken.grant r := by
    intro r
    split
    · exact ⟨hd r,hg r⟩
    · exact ⟨rfl,rfl⟩
  constructor
  · rintro ⟨q,hfind,hlive,hq⟩
    obtain ⟨r,hr,rfl⟩ := Option.map_eq_some_iff.mp hfind
    exact ⟨r,hr,(hsame r).1.symm.trans hlive,(hsame r).2.symm.trans hq⟩
  · rintro ⟨r,hfind,hlive,hr⟩
    exact ⟨_,Option.map_eq_some_iff.mpr ⟨r,hfind,rfl⟩,(hsame r).1.trans hlive,(hsame r).2.trans hr⟩

theorem powers_stamp {k : ℕ} {usedAt : Instant} {ip : String} : Powers h g (stamp usedAt ip k t) ↔ Powers h g t :=
  @powers_update t h g k (stampRow usedAt ip) (stampRow_tokenHash usedAt ip) (fun _ => rfl) (fun _ => rfl)

theorem powers_revoke {k : ℕ} : Powers h g (revokeToken t k) ↔ Powers h g t ∧ k ≠ g.tokenId := by
  unfold Powers revokeToken ApiTokens.update
  rw [KeyedTable.find_modify]
  constructor
  · rintro ⟨q,hfind,hlive,hq⟩
    obtain ⟨r,hr,rfl⟩ := Option.map_eq_some_iff.mp hfind
    by_cases hk : r.id = k
    · rw [if_pos hk] at hlive
      cases hlive
    · rw [if_neg hk] at hlive hq
      exact ⟨⟨r,hr,hlive,hq⟩,fun heq => hk (heq ▸ congrArg Grant.tokenId hq)⟩
  · rintro ⟨⟨r,hfind,hlive,hr⟩,hk⟩
    have hid : r.id = g.tokenId := congrArg Grant.tokenId hr
    exact ⟨r,Option.map_eq_some_iff.mpr ⟨r,hfind,if_neg (fun heq => hk (heq.symm.trans hid))⟩,hlive,hr⟩

/-- Of what a removal leaves, the rest is as it was. -/
theorem powers_remove {p : ApiToken → Bool} {seq : ℕ} :
    Powers h g ⟨t.table.remove p,seq⟩ ↔ ∃ r, t.table.find h = some r ∧ r.disabled = false ∧ ApiToken.grant r = g ∧ p r = false := by
  unfold Powers
  rw [KeyedTable.find_remove]
  refine exists_congr (fun r => ?_)
  rw [Option.filter_eq_some_iff, Bool.not_eq_true']
  tauto

theorem powers_delete {k : ℕ} : Powers h g (deleteToken t k) ↔ Powers h g t ∧ k ≠ g.tokenId := by
  unfold deleteToken
  rw [powers_remove]
  constructor
  · rintro ⟨r,hfind,hlive,hr,hk⟩
    exact ⟨⟨r,hfind,hlive,hr⟩,fun heq => of_decide_eq_false hk (heq ▸ congrArg Grant.tokenId hr)⟩
  · rintro ⟨⟨r,hfind,hlive,hr⟩,hk⟩
    have hid : r.id = g.tokenId := congrArg Grant.tokenId hr
    exact ⟨r,hfind,hlive,hr,decide_eq_false (fun heq => hk (heq.symm.trans hid))⟩

theorem powers_clear : ¬ Powers h g (clearTokens t) := by
  unfold clearTokens
  rw [powers_remove]
  rintro ⟨r,-,-,-,hr⟩
  cases hr

/-- A fresh row gives what it grants, and the other hashes keep theirs. -/
theorem powers_fresh {table : KeyedTable String ApiToken ApiToken.tokenHash} {r : ApiToken} {seq seq' : ℕ} (hfree : table.find r.tokenHash = none) :
    Powers h g ⟨table.upsert r id id_tokenHash,seq⟩ ↔
      (r.tokenHash = h ∧ r.disabled = false ∧ ApiToken.grant r = g) ∨ Powers h g ⟨table,seq'⟩ := by
  unfold Powers
  rw [KeyedTable.find_upsert]
  by_cases hh : h = r.tokenHash
  · rw [if_pos hh, hh, hfree]
    constructor
    · rintro ⟨q,hq,hlive⟩
      obtain rfl : r = q := Option.some.inj hq
      exact Or.inl ⟨rfl,hlive⟩
    · rintro (⟨-,hlive⟩ | ⟨q,hq,-⟩)
      · exact ⟨r,rfl,hlive⟩
      · cases hq
  · rw [if_neg hh]
    exact ⟨Or.inr,fun hor => hor.resolve_left (fun hr => hh hr.1.symm)⟩

theorem not_clashes_find {r : ApiToken} (hfree : clashes r t = false) : t.table.find r.tokenHash = none := by
  rw [KeyedTable.find_eq_none]
  intro q hq heq
  have hno := List.any_eq_false.mp hfree q hq
  exact hno (decide_eq_true (Or.inr heq))

theorem powers_insertToken {overwrite : Bool} {r : ApiToken} :
    Powers h g (insertToken overwrite r t) ↔
      ((overwrite = true ∨ clashes r t = false) ∧ r.tokenHash = h ∧ r.disabled = false ∧ ApiToken.grant r = g) ∨
      (Powers h g t ∧ ¬ (overwrite = true ∧ (r.id = g.tokenId ∨ r.tokenHash = h))) := by
  unfold insertToken
  cases overwrite with
  | true =>
    have hfree : (t.table.remove (fun q => q.id = r.id ∨ q.tokenHash = r.tokenHash)).find r.tokenHash = none := by
      rw [KeyedTable.find_remove, Option.filter_eq_none_iff]
      intro q hq
      rw [Bool.not_eq_true', Bool.not_eq_false]
      exact decide_eq_true (Or.inr (KeyedTable.find_eq_some.mp hq).2)
    rw [if_pos rfl, @powers_fresh _ _ _ _ _ t.seq hfree, powers_remove]
    refine or_congr (by simp) ⟨?_,?_⟩
    · rintro ⟨q,hfind,hlive,hq,hno⟩
      have hout := of_decide_eq_false hno
      refine ⟨⟨q,hfind,hlive,hq⟩,?_⟩
      rintro ⟨-,hid | hhash⟩
      · exact hout (Or.inl ((congrArg Grant.tokenId hq).trans hid.symm))
      · exact hout (Or.inr ((KeyedTable.find_eq_some.mp hfind).2.trans hhash.symm))
    · rintro ⟨⟨q,hfind,hlive,hq⟩,hno⟩
      refine ⟨q,hfind,hlive,hq,decide_eq_false (fun hout => hno ⟨rfl,?_⟩)⟩
      rcases hout with hid | hhash
      · exact Or.inl (hid.symm.trans (congrArg Grant.tokenId hq))
      · exact Or.inr (hhash.symm.trans (KeyedTable.find_eq_some.mp hfind).2)
  | false =>
    rw [if_neg Bool.false_ne_true]
    cases hclash : clashes r t with
    | true => simp
    | false =>
      rw [if_neg Bool.false_ne_true, @powers_fresh _ _ _ _ _ t.seq (not_clashes_find hclash)]
      simp

/-- The scopes are stored in order, and are read back as they were given. -/
theorem scopeSet_stored (hscopes : ∀ s ∈ scopeSet text, s ∈ scopeOrder) :
    scopeSet (String.intercalate "," ((scopeSet text).insertionSort (fun a b => a ≤ b))) = (scopeSet text).insertionSort (fun a b => a ≤ b) := by
  have hsub : ((scopeSet text).insertionSort (fun a b => a ≤ b)).Sublist ["admin","read","stats","write"] := by
    refine List.sublist_of_subperm_of_pairwise (r := fun a b => a ≤ b) ?_ (List.pairwise_insertionSort _ _) (by decide)
    refine (List.perm_insertionSort _ _).subperm.trans ((List.nodup_dedup _).subperm (fun s hs => ?_))
    exact (by decide : ∀ s ∈ scopeOrder, s ∈ ["admin","read","stats","write"]) s (hscopes s hs)
  have hall : ∀ l ∈ (["admin","read","stats","write"] : List String).sublists, scopeSet (String.intercalate "," l) = l := by decide +kernel
  exact hall _ (List.mem_sublists.2 hsub)

/-- A created token has the scopes that were answered, and every other hash keeps its row. -/
theorem powers_create {name asked createdBy secret : String} {expiresAt : Option String} {now : Instant} {fresh : NewToken}
    (hok : createToken isAlnum hash name asked createdBy expiresAt secret now t = .ok (fresh,t')) :
    Powers h g t' ↔ (hash fresh.token = h ∧ fresh.id = g.tokenId ∧ fresh.scopes = g.scopes ∧ expiresAt = g.expiresAt) ∨ Powers h g t := by
  unfold createToken at hok
  dsimp only at hok
  split at hok
  · cases hok
  · split at hok
    · cases hok
    · next hknown =>
      split_ifs at hok with hnone hunique
      obtain ⟨rfl,rfl⟩ := Prod.mk.inj (Except.ok.inj hok)
      have hscopes : ∀ s ∈ scopeSet asked, s ∈ scopeOrder := by
        intro s hs
        exact not_not.mp (of_decide_eq_false (eq_false_of_ne_true (List.find?_eq_none.mp hknown s hs)))
      rw [@powers_fresh _ _ _ _ _ t.seq (not_not.mp hunique)]
      refine or_congr ?_ Iff.rfl
      unfold ApiToken.grant
      rw [scopeSet_stored hscopes]
      constructor
      · rintro ⟨hh,-,rfl⟩
        exact ⟨hh,rfl,rfl,rfl⟩
      · rintro ⟨hh,hid,hs,he⟩
        obtain ⟨tokenId,scopes,expires⟩ := g
        subst hid hs he
        exact ⟨hh,rfl,rfl⟩

/-! ## A step, and a run -/

/-- What a statement brings has powers, and what had them keeps them unless the statement ends it. -/
theorem powers_step {m : Move} (hs : Step isAlnum hash m.before m.label m.after) :
    Powers h g m.after ↔ Brings hash h g m ∨ (Powers h g m.before ∧ ¬ Ends h g m) := by
  obtain ⟨t,a,t'⟩ := m
  dsimp only at hs
  cases hs with
  | @create _ name asked createdBy expiresAt secret now fresh hok =>
    rw [powers_create hok]
    refine or_congr ⟨?_,?_⟩ ?_
    · rintro ⟨hh,hid,hscopes,rfl⟩
      exact Or.inl ⟨name,asked,createdBy,secret,now,fresh,rfl,hh,hid,hscopes⟩
    · rintro (⟨name',asked',createdBy',secret',now',fresh',hl,hh,hid,hscopes⟩ | ⟨_,_,hl,-⟩)
      · injection hl with _ _ _ he _ _ hf
        subst hf
        exact ⟨hh,hid,hscopes,he⟩
      · cases hl
    · simp [Ends]
  | @revoke k =>
    rw [powers_revoke]
    simp [Brings, Ends]
  | @delete k =>
    rw [powers_delete]
    simp [Brings, Ends]
  | clear => simp [Brings, Ends, powers_clear]
  | @insert overwrite row =>
    rw [powers_insertToken]
    refine or_congr ⟨?_,?_⟩ (and_congr_right (fun _ => not_congr ⟨?_,?_⟩))
    · rintro ⟨hin,hrow⟩
      exact Or.inr ⟨overwrite,row,rfl,hin,hrow⟩
    · rintro (⟨_,_,_,_,_,_,hl,-⟩ | ⟨_,_,hl,hin,hrow⟩)
      · cases hl
      · cases hl
        exact ⟨hin,hrow⟩
    · rintro ⟨rfl,hout⟩
      exact Or.inr (Or.inr (Or.inr ⟨row,rfl,hout⟩))
    · rintro (hl | hl | hl | ⟨_,hl,hout⟩) <;> cases hl
      exact ⟨rfl,hout⟩
  | request => simp [Brings, Ends]
  | raise => simp [Brings, Ends]
  | @stamp usedAt ip k =>
    rw [powers_stamp]
    simp [Brings, Ends]

theorem powers_iff : Powers h g t ↔ ∃ r, t.enabled h = some r ∧ ApiToken.grant r = g := by
  unfold Powers ApiTokens.enabled
  refine exists_congr (fun r => ?_)
  rw [Option.filter_eq_some_iff, Bool.not_eq_true', and_assoc]

/-- A reply by what the request reads. -/
theorem requireToken_granted {scope ip : String} {authorization xToken : Option String} {now usedAt : Instant} {reply : Reply}
    (hok : requireToken hash scope authorization xToken now usedAt ip t = .ok (reply,t')) :
    reply = .granted ↔ presented authorization xToken ≠ "" ∧ ∃ g, Powers (hash (presented authorization xToken)) g t ∧
      expired g.expiresAt now = .ok false ∧ hasScope g.scopes scope = true := by
  simp only [powers_iff]
  unfold requireToken at hok
  dsimp only at hok
  split_ifs at hok with hraw
  · obtain ⟨rfl,-⟩ := Prod.mk.inj (Except.ok.inj hok)
    simp [hraw]
  · unfold lookup at hok
    rw [if_neg hraw] at hok
    cases hrow : t.enabled (hash (presented authorization xToken)) with
    | none =>
      rw [hrow] at hok
      obtain ⟨rfl,-⟩ := Prod.mk.inj (Except.ok.inj hok)
      simp
    | some r =>
      rw [hrow] at hok
      dsimp only at hok
      -- the row that was read is the only one with powers
      have hiff : (presented authorization xToken ≠ "" ∧ ∃ g, (∃ q, some r = some q ∧ ApiToken.grant q = g) ∧
          expired g.expiresAt now = .ok false ∧ hasScope g.scopes scope = true) ↔
          expired r.expiresAt now = .ok false ∧ hasScope (scopeSet r.scopes) scope = true := by
        simp [hraw, ApiToken.grant]
      rw [hiff]
      cases hexp : expired r.expiresAt now with
      | error e =>
        rw [hexp] at hok
        cases hok
      | ok late =>
        rw [hexp] at hok
        cases late with
        | true =>
          obtain ⟨rfl,-⟩ := Prod.mk.inj (Except.ok.inj hok)
          simp
        | false =>
          dsimp [bind, Except.bind, pure, Except.pure, found] at hok
          split_ifs at hok with hscope <;> obtain ⟨rfl,-⟩ := Prod.mk.inj (Except.ok.inj hok) <;> simp [hscope]

/-- Over any order of statements, a request passes exactly when something that stands brought its
token, not expired and with the scope. -/
theorem request_granted_iff {seq : ℕ} {ts pre post : List Move} {u : Move} (hrun : Trace (Step isAlnum hash) ⟨⟨[],List.nodup_nil⟩,seq⟩ ts t)
    (hsplit : ts = pre ++ u :: post) {scope ip : String} {authorization xToken : Option String} {now usedAt : Instant} {reply : Reply}
    (hu : u.label = .request scope authorization xToken now usedAt ip reply) :
    reply = .granted ↔ presented authorization xToken ≠ "" ∧
      ∃ g, StandsSince (Brings hash (hash (presented authorization xToken)) g) (Ends (hash (presented authorization xToken)) g) pre ∧
        expired g.expiresAt now = .ok false ∧ hasScope g.scopes scope = true := by
  subst hsplit
  have hpre := hrun.cut.1
  have hs := hrun.mem_step _ (List.mem_append_right _ List.mem_cons_self)
  have hstands : ∀ g, Powers (hash (presented authorization xToken)) g u.before ↔
      StandsSince (Brings hash (hash (presented authorization xToken)) g) (Ends (hash (presented authorization xToken)) g) pre := by
    intro g
    refine hpre.standsSince_iff ?_ (fun m hm => powers_step hm)
    rintro ⟨r,hr,-⟩
    cases hr
  rw [hu] at hs
  obtain ⟨t'',hok⟩ : ∃ t'', requireToken hash scope authorization xToken now usedAt ip u.before = .ok (reply,t'') := by
    generalize u.after = v at hs
    cases hs with
    | request hok => exact ⟨_,hok⟩
  rw [requireToken_granted hok]
  simp only [hstands]

end

def noTokens : ApiTokens := ⟨⟨[],List.nodup_nil⟩,0⟩

def siteToken : ApiToken :=
  { id := 1
    name := "site"
    tokenHash := "pk_x"
    tokenPrefix := "pk_x"
    scopes := "read"
    createdBy := "admin"
    createdAt := isoformat 0
    expiresAt := none }

def siteTokens : ApiTokens := ⟨⟨[siteToken],List.nodup_singleton _⟩,1⟩

def siteCreated : Move :=
  ⟨noTokens,.create "site" "read" "admin" none "x" 0
    ⟨1,"pk_x","pk_x",["read"],"site","This token is shown ONCE. Capture it now — it cannot be recovered."⟩,siteTokens⟩

/-- A request at `now` in the table, with the token of the site. -/
def siteRequest (now : Instant) (reply : Reply) (t : ApiTokens) : Move := ⟨t,.request "read" (some "Bearer pk_x") none now now "" reply,t⟩

def siteRevoked : Move := ⟨siteTokens,.revoke 1,revokeToken siteTokens 1⟩

/-- A token is created and used, and once it is revoked nothing stands behind it. -/
theorem request_granted_iff_example :
    Trace (Step (fun _ => true) id) noTokens
      [siteCreated,siteRequest 1 .granted siteTokens,siteRevoked,siteRequest 3 .unauthorized (revokeToken siteTokens 1)]
      (revokeToken siteTokens 1) ∧
    (∃ g, StandsSince (Brings id "pk_x" g) (Ends "pk_x" g) [siteCreated] ∧ hasScope g.scopes "read" = true) ∧
    ¬ ∃ g, StandsSince (Brings id "pk_x" g) (Ends "pk_x" g) [siteCreated,siteRequest 1 .granted siteTokens,siteRevoked] ∧
      expired g.expiresAt 3 = .ok false ∧ hasScope g.scopes "read" = true := by
  have hcreate : createToken (fun _ => true) id "site" "read" "admin" none "x" 0 noTokens =
      .ok (⟨1,"pk_x","pk_x",["read"],"site","This token is shown ONCE. Capture it now — it cannot be recovered."⟩,siteTokens) := by rfl
  have hgranted : requireToken id "read" (some "Bearer pk_x") none 1 1 "" siteTokens = .ok (.granted,stamp 1 "" 1 siteTokens) := by rfl
  have hrefused : requireToken id "read" (some "Bearer pk_x") none 3 3 "" (revokeToken siteTokens 1) =
      .ok (.unauthorized,revokeToken siteTokens 1) := by rfl
  have hraw : presented (some "Bearer pk_x") none = "pk_x" := by rfl
  have hrun : Trace (Step (fun _ => true) id) noTokens
      [siteCreated,siteRequest 1 .granted siteTokens,siteRevoked,siteRequest 3 .unauthorized (revokeToken siteTokens 1)]
      (revokeToken siteTokens 1) :=
    (((Trace.nil.snoc (.create hcreate)).snoc (.request hgranted)).snoc .revoke).snoc (.request hrefused)
  have hfirst := request_granted_iff hrun (rfl : _ = [siteCreated] ++ siteRequest 1 .granted siteTokens :: [siteRevoked,_]) rfl
  have hsecond := request_granted_iff hrun
    (rfl : _ = [siteCreated,siteRequest 1 .granted siteTokens,siteRevoked] ++ siteRequest 3 .unauthorized (revokeToken siteTokens 1) :: []) rfl
  rw [hraw] at hfirst hsecond
  obtain ⟨-,g,hstands,-,hscope⟩ := hfirst.mp rfl
  exact ⟨hrun,⟨g,hstands,hscope⟩,fun hany => nomatch hsecond.mpr ⟨by decide,hany⟩⟩

end Protek.Access.TokenAuthority
