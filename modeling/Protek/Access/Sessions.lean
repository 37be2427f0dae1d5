import Protek.Access.Users

/-! # Sessions and revocation

A session is a signed cookie that names a user. Each request looks the user up again,
or the allowlist for a session that Google minted, before a guarded view runs. A cookie
stays valid after it was replaced, so a request may carry any cookie ever handed out.
-/
namespace Protek.Access
open Foundation Foundation.PyText Foundation.Clock

structure Session where
  loggedIn : Bool := false
  username : Option String := none
  userId : Option ℕ := none
  role : Option String := none
  authSource : Option String := none
  lastActive : Option Instant := none
  deriving DecidableEq, Repr

def ROLE_ORDER : List (String × ℕ) := [("viewer",1),("operator",2),("admin",3)]

/-- The roles of Google accounts, highest first, with the variables that list them. -/
def ROLE_ENV : List (String × String) :=
  [("admin","GOOGLE_ADMIN_EMAILS"),("operator","GOOGLE_OPERATOR_EMAILS"),("viewer","GOOGLE_VIEWER_EMAILS")]

def currentRole (s : Session) : String := s.role.getD "viewer"

def hasRole (s : Session) (required : String) : Bool :=
  (ROLE_ORDER.lookup required).getD 99 ≤ (ROLE_ORDER.lookup (currentRole s)).getD 0

inductive Outcome
  | blocked
  | toLogin
  | expired
  | forbidden
  | body
  deriving DecidableEq, Repr

def roleRequired (required : String) (view : Session → Session × Outcome) (s : Session) : Session × Outcome :=
  if s.loggedIn = false then (s,.toLogin)
  else if hasRole s required = false then (s,.forbidden)
  else view s

def sessionExpired (timeout : ℕ) (now : Instant) (s : Session) : Bool :=
  match s.lastActive with
  | none => true
  | some last => timeout < now - last

/-- `ipOk` is the answer of `ip_allowed`, and `timeout` the idle time allowed. -/
def loginRequired (ipOk : Bool) (timeout : ℕ) (now : Instant) (view : Session → Session × Outcome) (s : Session) :
    Session × Outcome :=
  if ipOk = false then (s,.blocked)
  else if s.loggedIn = false then (s,.toLogin)
  else if sessionExpired timeout now s = true then ({},.expired)
  else view { s with lastActive := some now }

/-- A view under both decorators. The route of static files has the endpoint "static" to itself. -/
structure GuardedView where
  endpoint : String
  required : String
  notStatic : endpoint ≠ "static"

section
variable (U : CaseMap)

def emails (environ : Environ) (name : String) : List String :=
  ((split (clean environ name) ',').filter (fun e => strip e ≠ "")).map (fun e => U.lower (strip e))

/-- The role of the first list that has the address. -/
def roleFor (environ : Environ) (email : String) : Option String :=
  if email = "" then none
  else (ROLE_ENV.find? (fun p => U.lower (strip email) ∈ emails U environ p.2)).map Prod.fst

/-- `_revalidate_session`, which runs before every view. -/
def revalidateSession (environ : Environ) (endpoint : String) (u : Users) (s : Session) : Session :=
  if s.loggedIn = false then s
  else if endpoint = "static" then s
  else
    let uid := s.userId.getD 0
    match if uid ≠ 0 then getUserById u uid else getUser u (s.username.getD "") with
    | none => {}
    | some user =>
      let s := { s with userId := some user.id, username := some user.username }
      if s.authSource = some "google" then
        match roleFor U environ user.username with
        | none => {}
        | some role => { s with role := some role }
      else { s with role := some user.role }

/-- A request for a guarded view. -/
def request (environ : Environ) (view : GuardedView) (ipOk : Bool) (timeout : ℕ) (now : Instant) (u : Users) (s : Session) :
    Session × Outcome :=
  loginRequired ipOk timeout now (roleRequired view.required (fun s => (s,.body)))
    (revalidateSession U environ view.endpoint u s)

end

/-! ## Signing in -/

/-- `bcrypt.checkpw` and the check of a one-time code. -/
structure Verifiers where
  checkpw : String → String → Bool
  verifyTotp : Instant → String → String → Bool

/-- The cookie of a password sign-in, with the table that notes it. -/
def passwordSignIn (V : Verifiers) (username password code : String) (now : Instant) (u : Users) :
    Option (UserRow × Session × Users) :=
  let username := strip username
  if username = "" ∨ password = "" then none
  else match getUser u username with
    | none => none
    | some user =>
      if V.checkpw password user.passwordHash = false then none
      else if user.totpSecret = "" ∨ code = "" ∨ V.verifyTotp now user.totpSecret code = false then none
      else some (user,
        { loggedIn := true
          username := some username
          userId := some user.id
          role := some user.role
          lastActive := some now },
        recordUserLogin user.id now u)

/-- The cookie of a Google sign-in; `email` is the verified claim of the ID token. -/
def googleSignIn (U : CaseMap) (environ : Environ) (email pwHash : String) (now : Instant) (u : Users) :
    Option (String × Session × Users) :=
  let email := U.lower (strip email)
  if email = "" then none
  else match roleFor U environ email with
    | none => none
    | some role => match upsertSsoUser email role pwHash now u with
      | .error _ => none
      | .ok (userId,u) => some (email,
        { loggedIn := true
          username := some email
          userId := some userId
          role := some role
          authSource := some "google"
          lastActive := some now },u)

end Protek.Access
