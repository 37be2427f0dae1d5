import Protek.Access.BreakGlass
import Protek.Access.Sessions

/-! # Revocation reaches live sessions

Users sign in and are changed, the allowlist moves, and requests carry any cookie that
was handed out, while nothing in a cookie is trusted but the account it names.
-/
namespace Protek.Access
open Foundation Foundation.PyText Foundation.Clock

/-- A cookie, with the account that signed in for it and how. -/
structure Issued where
  account : ℕ
  name : String
  google : Bool
  session : Session
  deriving DecidableEq, Repr

structure World where
  users : Users
  environ : Environ
  cookies : List Issued

inductive Event
  | passwordSignIn (username password code : String)
  | googleSignIn (email pwHash : String)
  | call (o : Op)
  | boot (environ : Environ)
  | environChange (environ : Environ)
  | request (i : Issued) (view : GuardedView) (ipOk : Bool) (timeout : ℕ)
  | visit (i : Issued) (endpoint : String)

def Issued.renew (i : Issued) (s : Session) : Issued := { i with session := s }

namespace World
variable (U : CaseMap) (V : Verifiers) (isAlnum : Char → Bool)

def after (w : World) (e : Event × Instant) : World :=
  match e.1 with
  | .passwordSignIn username password code =>
    match Access.passwordSignIn V username password code e.2 w.users with
    | none => w
    | some (user,session,users) =>
      { w with users := users, cookies := w.cookies ++ [⟨user.id,user.username,false,session⟩] }
  | .googleSignIn email pwHash =>
    match Access.googleSignIn U w.environ email pwHash e.2 w.users with
    | none => w
    | some (name,session,users) =>
      { w with users := users, cookies := w.cookies ++ [⟨session.userId.getD 0,name,true,session⟩] }
  | .call o => { w with users := o.run isAlnum e.2 w.users }
  | .boot environ => { w with users := seedEnvUser environ e.2 w.users, environ := environ }
  | .environChange environ => { w with environ := environ }
  | .request i view ipOk timeout =>
    { w with cookies := w.cookies ++ [i.renew (Access.request U w.environ view ipOk timeout e.2 w.users i.session).1] }
  | .visit i endpoint =>
    { w with cookies := w.cookies ++ [i.renew (revalidateSession U w.environ endpoint w.users i.session)] }

/-- A request carries a cookie that was handed out. -/
def Carries (w : World) : Event → Prop
  | .request i _ _ _ => i ∈ w.cookies
  | .visit i _ => i ∈ w.cookies
  | _ => True

def Step (w : World) (e : Event × Instant) (w' : World) : Prop := w.Carries e.1 ∧ w' = w.after U V isAlnum e

end World

/-- The account of a cookie exists, is not disabled, and has a role of the rank required: the
role of its row or, if Google signed it in, the one of the allowlist. -/
def Authorized (U : CaseMap) (w : World) (i : Issued) (required : String) : Prop :=
  ∃ user ∈ w.users.rows, user.id = i.account ∧ user.username = i.name ∧ user.disabled = false ∧
    ∃ role n m, (if i.google then roleFor U w.environ user.username else some user.role) = some role ∧
      ROLE_ORDER.lookup required = some n ∧ ROLE_ORDER.lookup role = some m ∧ n ≤ m

/-- What a cookie says about its account is so. -/
structure Issued.Sound (u : Users) (i : Issued) : Prop where
  userId : i.session.loggedIn = true → i.session.userId = some i.account
  source : i.session.loggedIn = true → (i.session.authSource = some "google" ↔ i.google = true)
  pos : 0 < i.account
  le : i.account ≤ u.seq
  named : ∀ r ∈ u.rows, r.id = i.account → r.username = i.name

section
variable {U : CaseMap} {environ : Environ} {u u' : Users} {i : Issued} {s : Session} {endpoint : String}

theorem Issued.Sound.evolves (h : i.Sound u) (he : u.Evolves u') : i.Sound u' where
  userId := h.userId
  source := h.source
  pos := h.pos
  le := h.le.trans he.seq_le
  named r hr hid := by
    rcases he.row r hr with ⟨q,hq,hqid,hname⟩ | hlt
    · exact hname ▸ h.named q hq (hqid.trans hid)
    · exact absurd (hid ▸ h.le) (not_le.mpr hlt)

/-- What the check of a request makes of a sound cookie. -/
theorem revalidate_cases (U : CaseMap) (environ : Environ) (endpoint : String) (hsound : i.Sound u) :
    revalidateSession U environ endpoint u i.session = {} ∨
    (revalidateSession U environ endpoint u i.session = i.session ∧ (i.session.loggedIn = false ∨ endpoint = "static")) ∨
    (i.session.loggedIn = true ∧ ∃ user ∈ u.rows, user.id = i.account ∧ user.disabled = false ∧
      ∃ role, (if i.google then roleFor U environ user.username else some user.role) = some role ∧
        revalidateSession U environ endpoint u i.session =
          { i.session with userId := some user.id, username := some user.username, role := some role }) := by
  unfold revalidateSession
  by_cases hlog : i.session.loggedIn = false
  · rw [if_pos hlog]
    exact Or.inr (Or.inl ⟨rfl,Or.inl hlog⟩)
  · rw [if_neg hlog]
    by_cases hstatic : endpoint = "static"
    · rw [if_pos hstatic]
      exact Or.inr (Or.inl ⟨rfl,Or.inr hstatic⟩)
    · have hon : i.session.loggedIn = true := by simpa using hlog
      have hne : i.account ≠ 0 := Nat.pos_iff_ne_zero.mp hsound.pos
      have huid : i.session.userId.getD 0 = i.account := by rw [hsound.userId hon]; rfl
      rw [if_neg hstatic]
      simp only [huid, ne_eq, hne, not_false_eq_true, if_true]
      cases huser : getUserById u i.account with
      | none => exact Or.inl rfl
      | some user =>
        obtain ⟨hmem,hid,hen⟩ := getUserById_spec huser
        dsimp only
        by_cases hg : i.google = true
        · rw [if_pos ((hsound.source hon).mpr hg)]
          cases hrole : roleFor U environ user.username with
          | none => exact Or.inl rfl
          | some role => exact Or.inr (Or.inr ⟨hon,user,hmem,hid,hen,role,by rw [if_pos hg, hrole],rfl⟩)
        · rw [if_neg (fun h => hg ((hsound.source hon).mp h))]
          exact Or.inr (Or.inr ⟨hon,user,hmem,hid,hen,user.role,if_neg hg,rfl⟩)

/-- A session that names the same account keeps a cookie sound. -/
theorem Issued.Sound.renew (h : i.Sound u) (hs : s.loggedIn = true → i.session.loggedIn = true ∧
    s.userId = some i.account ∧ s.authSource = i.session.authSource) : (i.renew s).Sound u where
  userId hon := (hs hon).2.1
  source hon := by
    obtain ⟨hlog,_,hsource⟩ := hs hon
    change s.authSource = some "google" ↔ i.google = true
    rw [hsource]
    exact h.source hlog
  pos := h.pos
  le := h.le
  named := h.named

theorem revalidate_keeps (hsound : i.Sound u) (hin : (revalidateSession U environ endpoint u i.session).loggedIn = true) :
    i.session.loggedIn = true ∧ (revalidateSession U environ endpoint u i.session).userId = some i.account ∧
      (revalidateSession U environ endpoint u i.session).authSource = i.session.authSource := by
  rcases revalidate_cases U environ endpoint hsound with h | ⟨h,_⟩ | ⟨hon,user,_,hid,_,role,_,h⟩
  · rw [h] at hin
    cases hin
  · rw [h] at hin ⊢
    exact ⟨hin,hsound.userId hin,rfl⟩
  · rw [h]
    exact ⟨hon,congrArg some hid,rfl⟩

/-- A request leaves the checked session, with a new time, or none. -/
theorem request_session {view : GuardedView} {ipOk : Bool} {timeout : ℕ} {now : Instant} :
    (request U environ view ipOk timeout now u s).1 = {} ∨
    (request U environ view ipOk timeout now u s).1 = revalidateSession U environ view.endpoint u s ∨
    (request U environ view ipOk timeout now u s).1 =
      { revalidateSession U environ view.endpoint u s with lastActive := some now } := by
  unfold request loginRequired roleRequired
  split
  · exact Or.inr (Or.inl rfl)
  · split
    · exact Or.inr (Or.inl rfl)
    · split
      · exact Or.inl rfl
      · split
        · exact Or.inr (Or.inr rfl)
        · exact Or.inr (Or.inr rfl)

/-- The body of a guarded view runs for a session that is signed in and has the role, after the check. -/
theorem request_body {view : GuardedView} {ipOk : Bool} {timeout : ℕ} {now : Instant}
    (h : (request U environ view ipOk timeout now u s).2 = .body) :
    (revalidateSession U environ view.endpoint u s).loggedIn = true ∧
      hasRole (revalidateSession U environ view.endpoint u s) view.required = true := by
  unfold request loginRequired roleRequired at h
  split at h
  · cases h
  · split at h
    · cases h
    · next hon =>
      split at h
      · cases h
      · split at h
        · cases h
        · next hrole => exact ⟨(Bool.not_eq_false _).mp hon,(Bool.not_eq_false _).mp hrole⟩

theorem rank_bounds {role : String} {n : ℕ} (h : ROLE_ORDER.lookup role = some n) : 1 ≤ n ∧ n ≤ 3 := by
  obtain ⟨before,after,hsplit,_⟩ := List.lookup_eq_some_iff.mp h
  have hmem : (role,n) ∈ ROLE_ORDER := hsplit ▸ List.mem_append_right _ List.mem_cons_self
  have hall : ∀ p ∈ ROLE_ORDER, 1 ≤ p.2 ∧ p.2 ≤ 3 := by decide
  exact hall _ hmem

theorem hasRole_spec {required : String} (h : hasRole s required = true) :
    ∃ n m, ROLE_ORDER.lookup required = some n ∧ ROLE_ORDER.lookup (currentRole s) = some m ∧ n ≤ m := by
  have hle := of_decide_eq_true h
  cases hm : ROLE_ORDER.lookup (currentRole s) with
  | none =>
    cases hn : ROLE_ORDER.lookup required with
    | none => simp [hm, hn] at hle
    | some n =>
      have := (rank_bounds hn).1
      simp only [hm, hn, Option.getD_some, Option.getD_none] at hle
      omega
  | some m =>
    cases hn : ROLE_ORDER.lookup required with
    | none =>
      have := (rank_bounds hm).2
      simp only [hm, hn, Option.getD_some, Option.getD_none] at hle
      omega
    | some n =>
      simp only [hm, hn, Option.getD_some] at hle
      exact ⟨n,m,rfl,rfl,hle⟩

/-! ## Along a run -/

variable {V : Verifiers} {isAlnum : Char → Bool} {w : World} {now : Instant}

/-- A password sign-in hands out a sound cookie. -/
theorem passwordSignIn_sound {username password code : String} {user : UserRow}
    (h : passwordSignIn V username password code now u = some (user,s,u')) :
    u.Evolves u' ∧ Issued.Sound u' ⟨user.id,user.username,false,s⟩ := by
  unfold passwordSignIn at h
  dsimp only at h
  split at h
  · cases h
  · split at h
    · cases h
    · next found hfound =>
      obtain ⟨hmem,_,_⟩ := getUser_spec hfound
      split at h
      · cases h
      · split at h
        · cases h
        · obtain ⟨rfl,hs⟩ := Prod.mk.inj (Option.some.inj h)
          obtain ⟨rfl,rfl⟩ := Prod.mk.inj hs
          have hev : u.Evolves (recordUserLogin found.id now u) := Users.evolves_update
          exact ⟨hev,fun _ => rfl,fun _ => by simp,u.id_pos _ hmem,u.id_le _ hmem,fun r hr hid => hev.username_eq hmem hr hid⟩

/-- A Google sign-in hands out a sound cookie. -/
theorem googleSignIn_sound {email pwHash name : String} (h : googleSignIn U environ email pwHash now u = some (name,s,u')) :
    u.Evolves u' ∧ Issued.Sound u' ⟨s.userId.getD 0,name,true,s⟩ := by
  unfold googleSignIn at h
  dsimp only at h
  split at h
  · cases h
  · split at h
    · cases h
    · split at h
      · cases h
      · next userId users hup =>
        obtain ⟨rfl,hs⟩ := Prod.mk.inj (Option.some.inj h)
        obtain ⟨rfl,rfl⟩ := Prod.mk.inj hs
        obtain ⟨hev,r,hr,hid,hname⟩ := upsertSsoUser_spec hup
        refine ⟨hev,⟨fun _ => rfl,fun _ => by simp,?_,?_,?_⟩⟩
        · exact hid ▸ users.id_pos r hr
        · exact hid ▸ users.id_le r hr
        · intro q hq hqid
          rw [List.inj_on_of_nodup_map users.nodup_id hq hr (hqid.trans hid.symm), hname]

def CookiesSound (w : World) : Prop := ∀ i ∈ w.cookies, i.Sound w.users

theorem CookiesSound.add (h : CookiesSound w) (he : w.users.Evolves u') (hi : i.Sound u') :
    CookiesSound { w with users := u', cookies := w.cookies ++ [i] } := by
  intro j hj
  rcases List.mem_append.mp hj with hj | hj
  · exact (h j hj).evolves he
  · rw [List.mem_singleton.mp hj]
    exact hi

/-- Every step keeps every cookie sound. -/
theorem cookiesSound_step {e : Event × Instant} {w' : World} (hst : World.Step U V isAlnum w e w') (h : CookiesSound w) :
    CookiesSound w' := by
  obtain ⟨hcarries,rfl⟩ := hst
  obtain ⟨e,now⟩ := e
  unfold World.after
  cases e with
  | passwordSignIn username password code =>
    dsimp only
    split
    · exact h
    · next hsign =>
      obtain ⟨hev,hsound⟩ := passwordSignIn_sound hsign
      exact h.add hev hsound
  | googleSignIn email pwHash =>
    dsimp only
    split
    · exact h
    · next hsign =>
      obtain ⟨hev,hsound⟩ := googleSignIn_sound hsign
      exact h.add hev hsound
  | call o =>
    intro i hi
    dsimp only at hi ⊢
    exact (h i hi).evolves (evolves_run o)
  | boot environ =>
    intro i hi
    dsimp only at hi ⊢
    exact (h i hi).evolves (evolves_seedEnvUser environ)
  | environChange environ => exact h
  | request i view ipOk timeout =>
    refine h.add (Users.Evolves.refl _) ((h i hcarries).renew (fun hin => ?_))
    rcases request_session (U := U) (s := i.session) with hs | hs | hs
    · rw [hs] at hin
      cases hin
    · rw [hs] at hin ⊢
      exact revalidate_keeps (h i hcarries) hin
    · rw [hs] at hin ⊢
      exact revalidate_keeps (h i hcarries) hin
  | visit i endpoint =>
    exact h.add (Users.Evolves.refl _) ((h i hcarries).renew (revalidate_keeps (h i hcarries)))

/-- The body of a guarded view runs for an authorized account only. -/
theorem authorized_of_body {view : GuardedView} {ipOk : Bool} {timeout : ℕ} (hsound : i.Sound w.users)
    (h : (request U w.environ view ipOk timeout now w.users i.session).2 = .body) : Authorized U w i view.required := by
  obtain ⟨hon,hrole⟩ := request_body h
  rcases revalidate_cases U w.environ view.endpoint hsound with hs | ⟨hs,hoff⟩ | ⟨_,user,hmem,hid,hen,role,hrole',hs⟩
  · rw [hs] at hon
    cases hon
  · rw [hs] at hon
    rcases hoff with hoff | hstatic
    · rw [hoff] at hon
      cases hon
    · exact absurd hstatic view.notStatic
  · rw [hs] at hrole
    obtain ⟨n,m,hn,hm,hle⟩ := hasRole_spec hrole
    exact ⟨user,hmem,hid,hsound.named user hmem hid,hen,role,n,m,hrole',hn,hm,hle⟩

end

/-- In every run, from any users and with no cookie handed out, the body of a guarded view runs only
for an account that exists, is not disabled and has the role at the time of the request. -/
theorem revocation_reaches_sessions (U : CaseMap) (V : Verifiers) (isAlnum : Char → Bool) {users : Users} {environ : Environ}
    {ts : List (Transition World (Event × Instant))} {w : World} (h : Trace (World.Step U V isAlnum) ⟨users,environ,[]⟩ ts w) :
    ∀ t ∈ ts, ∀ i view ipOk timeout, t.label.1 = .request i view ipOk timeout →
      (request U t.before.environ view ipOk timeout t.label.2 t.before.users i.session).2 = .body →
        Authorized U t.before i view.required := by
  intro t ht i view ipOk timeout hlabel hbody
  obtain ⟨_,hall⟩ := h.always (I := CookiesSound) (by simp [CookiesSound]) (fun t hst hI => cookiesSound_step hst hI)
  obtain ⟨hcarries,_⟩ := h.mem_step t ht
  rw [hlabel] at hcarries
  exact authorized_of_body ((hall t ht).1 i hcarries) hbody

/-! ## An admin at work -/

def keyring : Verifiers where
  checkpw password hash := "$2b$12$" ++ password = hash
  verifyTotp _ secret code := secret = "JBSWY3DP" && code = "123456"

def fresh : World := ⟨Users.empty,BreakGlass.envOf "root",[]⟩

def up : World := fresh.after .ascii keyring Char.isAlphanum (.boot (BreakGlass.envOf "root"),0)

def signedIn : World := up.after .ascii keyring Char.isAlphanum (.passwordSignIn "root" "wh1" "123456",0)

def rootCookie : Issued where
  account := 1
  name := "root"
  google := false
  session := { loggedIn := true, username := some "root", userId := some 1, role := some "admin", lastActive := some 0 }

def usersPage : GuardedView := ⟨"admin_users_page","admin",by decide⟩

theorem admin_trace : Trace (World.Step .ascii keyring Char.isAlphanum) fresh
    [⟨fresh,(.boot (BreakGlass.envOf "root"),0),up⟩,⟨up,(.passwordSignIn "root" "wh1" "123456",0),signedIn⟩,
      ⟨signedIn,(.request rootCookie usersPage true (1800 * second),second),
        signedIn.after .ascii keyring Char.isAlphanum (.request rootCookie usersPage true (1800 * second),second)⟩]
    (signedIn.after .ascii keyring Char.isAlphanum (.request rootCookie usersPage true (1800 * second),second)) := by
  have hcarries : rootCookie ∈ signedIn.cookies := by decide
  exact ((Trace.single (a := (Event.boot (BreakGlass.envOf "root"),0)) ⟨trivial,rfl⟩).snoc
    (a := (Event.passwordSignIn "root" "wh1" "123456",0)) ⟨trivial,rfl⟩).snoc
    (a := (Event.request rootCookie usersPage true (1800 * second),second)) ⟨hcarries,rfl⟩

theorem revocation_reaches_sessions_example :
    (request .ascii signedIn.environ usersPage true (1800 * second) second signedIn.users rootCookie.session).2 = .body ∧
      Authorized .ascii signedIn rootCookie "admin" := by
  have hbody : (request .ascii signedIn.environ usersPage true (1800 * second) second signedIn.users
      rootCookie.session).2 = .body := by decide
  exact ⟨hbody,revocation_reaches_sessions .ascii keyring Char.isAlphanum admin_trace _
    (List.mem_cons_of_mem _ (List.mem_cons_of_mem _ List.mem_cons_self)) rootCookie usersPage true (1800 * second) rfl hbody⟩

end Protek.Access
