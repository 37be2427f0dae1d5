import Mathlib.Data.List.Sort
import Mathlib.Data.String.Basic
import Protek.Access.RoleMappings
import Protek.Foundation.FromIso

/-! # The expiry of API tokens

A token is found by the hash of its text. Its expiry is stored as it was typed and read
when the token is used.
-/
namespace Protek.Access
open Foundation Foundation.PyText Foundation.Clock

/-! ## The table of tokens -/

structure ApiToken where
  id : ℕ
  name : String
  tokenHash : String
  tokenPrefix : String
  scopes : String
  createdBy : String
  createdAt : String
  expiresAt : Option String
  lastUsedAt : Option String := none
  lastUsedIp : String := ""
  disabled : Bool := false
  deriving DecidableEq

/-- The rows under their unique hashes, and the last id given out. -/
structure ApiTokens where
  table : KeyedTable String ApiToken ApiToken.tokenHash
  seq : ℕ

inductive TokenError
  | valueError (text : String)
  | integrityError
  | typeError
  deriving DecidableEq

/-- `UPDATE api_tokens SET … WHERE id = ?`, for a statement that leaves the hash alone. -/
def ApiTokens.update (t : ApiTokens) (tokenId : ℕ) (f : ApiToken → ApiToken) (hf : ∀ r, (f r).tokenHash = r.tokenHash) : ApiTokens :=
  { t with table := t.table.modify (fun r => if r.id = tokenId then f r else r) (by
      intro r
      by_cases h : r.id = tokenId
      · simp [h, hf]
      · simp [h]) }

/-- The scopes by their rank. -/
def scopeOrder : List String := ["stats","read","write","admin"]

/-- The scopes of a comma-separated text, each once. -/
def scopeSet (scopes : String) : List String := (splitList scopes).dedup

/-- What `create_token` answers. -/
structure NewToken where
  id : ℕ
  token : String
  tokenPrefix : String
  scopes : List String
  name : String
  warning : String

def rawToken (secret : String) : String := "pk_" ++ secret

section
variable (isAlnum : Char → Bool) (hash : String → String)

/-- `secret` is the text of `token_urlsafe`. -/
def createToken (name scopes createdBy : String) (expiresAt : Option String) (secret : String) (now : Instant) (t : ApiTokens) :
    Except TokenError (NewToken × ApiTokens) :=
  let plain := name.toList.filter (fun c => c ≠ '-' ∧ c ≠ '_')
  if name = "" ∨ plain = [] ∨ plain.all isAlnum = false then .error (.valueError "name must be alphanumeric (plus _ and -)")
  else match (scopeSet scopes).find? (· ∉ scopeOrder) with
    | some s => .error (.valueError ("unknown scope: " ++ s))
    | none =>
      if scopeSet scopes = [] then .error (.valueError "at least one scope required")
      else if t.table.find (hash (rawToken secret)) ≠ none then .error .integrityError
      else
        let sorted := (scopeSet scopes).insertionSort (fun a b => a ≤ b)
        let row : ApiToken :=
          { id := t.seq + 1
            name := name
            tokenHash := hash (rawToken secret)
            tokenPrefix := String.ofList ((rawToken secret).toList.take 11)
            scopes := String.intercalate "," sorted
            createdBy := createdBy
            createdAt := isoformat now
            expiresAt := expiresAt }
        .ok (⟨row.id,rawToken secret,row.tokenPrefix,sorted,name,
          "This token is shown ONCE. Capture it now — it cannot be recovered."⟩,⟨t.table.upsert row id (fun _ => rfl),t.seq + 1⟩)

/-! ## The lookup -/

/-- Whether a text names an instant before `now`; one that cannot be read does not. -/
def past (text : String) (now : Instant) : Except TokenError Bool :=
  match fromisoformat (zuluToOffset text) with
  | none => .ok false
  | some d =>
    match d.aware with
    | some i => .ok (i < now)
    -- a naive time does not compare with an aware one
    | none => .error .typeError

def expired (expiresAt : Option String) (now : Instant) : Except TokenError Bool :=
  match expiresAt with
  | some text => if text = "" then .ok false else past text now
  | none => .ok false

/-- The row as it was before its use was stamped, with its scopes. -/
structure FoundToken where
  row : ApiToken
  scopes : List String
  deriving DecidableEq

def found (row : ApiToken) : FoundToken := ⟨row,scopeSet row.scopes⟩

/-- The enabled row of a hash. -/
def ApiTokens.enabled (t : ApiTokens) (h : String) : Option ApiToken := (t.table.find h).filter (fun r => !r.disabled)

/-- `now` is compared with the expiry, `usedAt` and `ip` are stored. -/
def lookup (raw : String) (now usedAt : Instant) (ip : String) (t : ApiTokens) : Except TokenError (Option FoundToken × ApiTokens) :=
  if raw = "" then .ok (none,t)
  else match t.enabled (hash raw) with
    | none => .ok (none,t)
    | some row => do
      if ← expired row.expiresAt now then return (none,t)
      return (some (found row),
        t.update row.id (fun r => { r with lastUsedAt := some (isoformat usedAt), lastUsedIp := ip }) (fun _ => rfl))

end

/-! ## What an expiry does -/

section
variable {isAlnum : Char → Bool} {hash : String → String} {t t' : ApiTokens} {row : ApiToken} {secret text : String}

/-- The expiry is stored as it came. -/
theorem createToken_enabled {name scopes createdBy : String} {expiresAt : Option String} {now : Instant} {fresh : NewToken}
    (h : createToken isAlnum hash name scopes createdBy expiresAt secret now t = .ok (fresh,t')) :
    fresh.token = rawToken secret ∧ ∃ row, t'.enabled (hash (rawToken secret)) = some row ∧ row.expiresAt = expiresAt := by
  unfold createToken at h
  dsimp only at h
  split at h
  · cases h
  · split at h
    · cases h
    · split_ifs at h with hnone hunique
      obtain ⟨rfl,rfl⟩ := Prod.mk.inj (Except.ok.inj h)
      rw [ApiTokens.enabled, KeyedTable.find_upsert, if_pos rfl, not_not.mp hunique]
      exact ⟨rfl,_,rfl,rfl⟩

end

/-! ## A typing error -/

end Protek.Access
