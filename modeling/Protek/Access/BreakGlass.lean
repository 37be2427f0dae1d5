import Protek.Access.Users
import Protek.Foundation.Trace

/-! # The account of `.env`

Every boot mirrors the account of `.env` into the table of users. The mirror repairs
the row only when its hash or secret is another one, the admin routes guard the row
of id 1 whatever its name, and single sign-on finds rows by name. So the account is
safe as long as it is row 1 and no sign-on carries its name with a lower role.
-/
namespace Protek.Access.BreakGlass
open Foundation Foundation.Clock

inductive Event
  | boot (environ : Environ)
  | op (o : Op)

/-- The table, and the environment of the running process once it has booted. -/
structure State where
  users : Users
  environ : Option Environ

def Step (isAlnum : Char → Bool) (s : State) (e : Event × Instant) (t : State) : Prop :=
  match e.1 with
  | .boot environ => AdminSet environ ∧ t = ⟨seedEnvUser environ e.2 s.users,some environ⟩
  | .op o => s.environ.isSome = true ∧ t = ⟨o.run isAlnum e.2 s.users,s.environ⟩

/-- The account of `.env` can sign in with its password and secret, as an admin. -/
def HasEnvAdmin (environ : Environ) (u : Users) : Prop :=
  ∃ r, u.table.find (adminUsername environ) = some r ∧ r.passwordHash = adminHash environ ∧
    r.totpSecret = totpSecret environ ∧ r.role = "admin" ∧ r.disabled = false

/-- The row of a name is still there, with its role, and not disabled by the step. -/
def LeavesAlone (name : String) (u u' : Users) : Prop :=
  ∀ r, u.table.find name = some r →
    ∃ r', u'.table.find name = some r' ∧ r'.role = r.role ∧ (r.disabled = false → r'.disabled = false)

def NeverLockedOut (t : Transition State (Event × Instant)) : Prop :=
  match t.label.1 with
  | .boot environ => HasEnvAdmin environ t.after.users
  | .op _ => ∀ environ, t.before.environ = some environ →
      LeavesAlone (adminUsername environ) t.before.users t.after.users

/-- A call that the guard on id 1 refuses, that is about another row, or that keeps an admin. -/
def Harmless (r : UserRow) : Op → Prop
  | .setUserDisabled userId disabled => r.id = userId → disabled = true → userId = 1
  | .setUserRole userId role => r.id = userId → role ∈ roles → role ≠ "admin" → userId = 1
  | .deleteUser userId => r.id = userId → userId = 1
  | .addUser _ _ _ _ _ => True
  | .upsertSsoUser email role _ => r.username = email → role = "admin"

/-- A boot finds no row of the name, one that it repairs, or an enabled admin; a call is harmless
to the row of `.env`. -/
def Spared (t : Transition State (Event × Instant)) : Prop :=
  match t.label.1 with
  | .boot environ => ∀ r, t.before.users.table.find (adminUsername environ) = some r →
      r.passwordHash ≠ adminHash environ ∨ r.totpSecret ≠ totpSecret environ ∨ (r.role = "admin" ∧ r.disabled = false)
  | .op o => ∀ environ, t.before.environ = some environ →
      ∀ r, t.before.users.table.find (adminUsername environ) = some r → Harmless r o

section
variable {isAlnum : Char → Bool} {now : Instant} {u : Users} {environ : Environ} {name : String} {r : UserRow}

/-- What a call leaves of a row has its hash and secret. -/
theorem effect_secrets {o : Op} {r' : UserRow} (h : o.effect now r = some r') :
    r'.passwordHash = r.passwordHash ∧ r'.totpSecret = r.totpSecret := by
  cases o with
  | setUserDisabled userId disabled =>
    rw [← Option.some.inj h]
    split <;> exact ⟨rfl,rfl⟩
  | setUserRole userId role =>
    rw [← Option.some.inj h]
    split <;> exact ⟨rfl,rfl⟩
  | deleteUser userId =>
    dsimp only [Op.effect] at h
    split at h
    · cases h
    · cases h
      exact ⟨rfl,rfl⟩
  | addUser username password role hashed secret =>
    cases h
    exact ⟨rfl,rfl⟩
  | upsertSsoUser email role pwHash =>
    rw [← Option.some.inj h]
    split <;> exact ⟨rfl,rfl⟩

/-- An enabled admin stays one exactly under the calls that are harmless to it. -/
theorem effect_keeps_iff (now : Instant) (o : Op) (hrole : r.role = "admin") (hon : r.disabled = false) :
    (∃ r', o.effect now r = some r' ∧ r'.role = "admin" ∧ r'.disabled = false) ↔ Harmless r o := by
  cases o with
  | setUserDisabled userId disabled =>
    unfold Op.effect Harmless
    by_cases hid : r.id = userId
    · cases disabled with
      | true => by_cases h1 : userId = 1 <;> simp [hid, h1, hrole, hon]
      | false => simp [hid, hrole]
    · simp [hid, hrole, hon]
  | setUserRole userId role =>
    unfold Op.effect Harmless
    by_cases hid : r.id = userId
    · by_cases hr : role ∈ roles
      · by_cases ha : role = "admin"
        · by_cases h1 : userId = 1 <;> simp [hid, ha, h1, hon, roles]
        · by_cases h1 : userId = 1 <;> simp [hid, hr, ha, h1, hrole, hon]
      · simp [hr, hrole, hon]
    · simp [hid, hrole, hon]
  | deleteUser userId =>
    unfold Op.effect Harmless
    by_cases hid : r.id = userId
    · by_cases h1 : userId = 1 <;> simp [hid, h1, hrole, hon]
    · simp [hid, hrole, hon]
  | addUser username password role hashed secret => simp [Op.effect, Harmless, hrole, hon]
  | upsertSsoUser email role pwHash =>
    unfold Op.effect Harmless
    by_cases he : r.username = email
    · simp [he, hon]
    · simp [he, hrole, hon]

/-- A boot leaves the account of `.env` in order exactly when it has no row, one to repair, or a row in order. -/
theorem hasEnvAdmin_seed_iff (now : Instant) (hset : AdminSet environ) :
    HasEnvAdmin environ (seedEnvUser environ now u) ↔ ∀ r, u.table.find (adminUsername environ) = some r →
      r.passwordHash ≠ adminHash environ ∨ r.totpSecret ≠ totpSecret environ ∨ (r.role = "admin" ∧ r.disabled = false) := by
  unfold seedEnvUser HasEnvAdmin
  rw [if_pos hset]
  split
  · next row hrow =>
    rw [hrow]
    by_cases hfix : row.passwordHash ≠ adminHash environ ∨ row.totpSecret ≠ totpSecret environ
    · rw [if_pos hfix]
      constructor
      · rintro _ r hr
        rw [← Option.some.inj hr]
        exact hfix.imp_right Or.inl
      · intro _
        rw [Users.find_update, hrow]
        exact ⟨_,rfl,by simp⟩
    · rw [if_neg hfix, hrow]
      push Not at hfix
      simp [hfix.1, hfix.2]
  · next hnone =>
    constructor
    · intro _ r hr
      rw [hnone] at hr
      cases hr
    · intro _
      rw [Users.find_insertFresh, if_pos rfl]
      exact ⟨_,rfl,rfl,rfl,rfl,rfl⟩

theorem leavesAlone_run_iff (o : Op) (h : u.table.find name = some r) (hrole : r.role = "admin") (hon : r.disabled = false) :
    LeavesAlone name u (o.run isAlnum now u) ↔ Harmless r o := by
  rw [← effect_keeps_iff now o hrole hon]
  constructor
  · intro hall
    obtain ⟨r',hr',hrole',hon'⟩ := hall r h
    exact ⟨r',(find_run o h).symm.trans hr',hrole'.trans hrole,hon' hon⟩
  · rintro ⟨r',heff,hrole',hon'⟩ q hq
    obtain rfl : r = q := Option.some.inj (h.symm.trans hq)
    exact ⟨r',(find_run o h).trans heff,hrole'.trans hrole.symm,fun _ => hon'⟩

/-- A call that is harmless to the account of `.env` keeps it in order. -/
theorem HasEnvAdmin.run {o : Op} (h : HasEnvAdmin environ u)
    (ho : ∀ r, u.table.find (adminUsername environ) = some r → Harmless r o) : HasEnvAdmin environ (o.run isAlnum now u) := by
  obtain ⟨r,hr,hhash,hsecret,hrole,hon⟩ := h
  obtain ⟨r',heff,hrole',hon'⟩ := (effect_keeps_iff now o hrole hon).mpr (ho r hr)
  obtain ⟨hh,hs⟩ := effect_secrets heff
  exact ⟨r',(find_run o hr).trans heff,hh.trans hhash,hs.trans hsecret,hrole',hon'⟩

/-- Along a run the account of `.env` is in order after every boot and left alone between boots
exactly when every boot finds it absent, to be repaired or in order, and every call is harmless to it. -/
theorem never_locked_out_iff (isAlnum : Char → Bool) {users : Users} {ts : List (Transition State (Event × Instant))}
    {s : State} (h : Trace (Step isAlnum) ⟨users,none⟩ ts s) :
    (∀ t ∈ ts, NeverLockedOut t) ↔ ∀ t ∈ ts, Spared t := by
  refine h.forall_iff (I := fun s => ∀ environ, s.environ = some environ → HasEnvAdmin environ s.users)
    (A := fun _ => True) (by simp) (fun _ _ => trivial) ?_ ?_
  · rintro ⟨s,⟨e,now⟩,t⟩ hst _ hC hI environ henv
    change Step isAlnum s (e,now) t at hst
    cases e with
    | boot environ' =>
      obtain ⟨hset,ht⟩ := hst
      unfold Spared at hC
      have hafter := (hasEnvAdmin_seed_iff now hset).mpr hC
      dsimp only at henv ht ⊢
      rw [ht] at henv ⊢
      dsimp only
      rw [← Option.some.inj henv]
      exact hafter
    | op o =>
      obtain ⟨_,ht⟩ := hst
      dsimp only at henv ht ⊢
      rw [ht] at henv ⊢
      dsimp only
      exact (hI environ henv).run (hC environ henv)
  · rintro ⟨s,⟨e,now⟩,t⟩ hst _ hI
    change Step isAlnum s (e,now) t at hst
    cases e with
    | boot environ =>
      obtain ⟨hset,ht⟩ := hst
      unfold NeverLockedOut Spared
      dsimp only at ht ⊢
      rw [ht]
      dsimp only
      exact hasEnvAdmin_seed_iff now hset
    | op o =>
      obtain ⟨_,ht⟩ := hst
      unfold NeverLockedOut Spared
      dsimp only at ht ⊢
      rw [ht]
      dsimp only
      refine forall_congr' (fun environ => imp_congr_right (fun henv => ?_))
      obtain ⟨r,hr,_,_,hrole,hon⟩ := hI environ henv
      refine (leavesAlone_run_iff o hr hrole hon).trans ⟨?_,fun hall => hall r hr⟩
      rintro ho q hq
      obtain rfl : r = q := Option.some.inj (hr.symm.trans hq)
      exact ho

end

/-! ## A renamed account -/

def envOf (username : String) : Environ := fun k =>
  if k = "APP_USERNAME" then some username
  else if k = "APP_PASSWORD_HASH" then some "$2b$12$wh1"
  else if k = "TOTP_SECRET" then some "JBSWY3DP"
  else none

def booted : Users := seedEnvUser (envOf "root") 0 Users.empty

def renamed : Users := seedEnvUser (envOf "alice") 0 booted

def disabled : Users := (Op.setUserDisabled 2 true).run Char.isAlphanum 0 renamed

def renameRun : List (Transition State (Event × Instant)) :=
  [⟨⟨Users.empty,none⟩,(.boot (envOf "root"),0),⟨booted,some (envOf "root")⟩⟩,
    ⟨⟨booted,some (envOf "root")⟩,(.boot (envOf "alice"),0),⟨renamed,some (envOf "alice")⟩⟩,
    ⟨⟨renamed,some (envOf "alice")⟩,(.op (.setUserDisabled 2 true),0),⟨disabled,some (envOf "alice")⟩⟩]

theorem renameRun_trace : Trace (Step Char.isAlphanum) ⟨Users.empty,none⟩ renameRun ⟨disabled,some (envOf "alice")⟩ :=
  ((Trace.single (a := (Event.boot (envOf "root"),0)) ⟨by decide,rfl⟩).snoc (a := (Event.boot (envOf "alice"),0))
    ⟨by decide,rfl⟩).snoc (a := (Event.op (.setUserDisabled 2 true),0)) ⟨rfl,rfl⟩

theorem never_locked_out_iff_example : (∀ t ∈ renameRun, NeverLockedOut t) ↔ ∀ t ∈ renameRun, Spared t :=
  never_locked_out_iff Char.isAlphanum renameRun_trace

/-- After APP_USERNAME was changed the account of `.env` is row 2, which an admin may disable. -/
theorem renamed_admin_locked_out :
    ∃ ts s, Trace (Step Char.isAlphanum) ⟨Users.empty,none⟩ ts s ∧ ¬ ∀ t ∈ ts, NeverLockedOut t := by
  refine ⟨renameRun,_,renameRun_trace,fun hall => ?_⟩
  have hlast := hall _ (List.mem_cons_of_mem _ (List.mem_cons_of_mem _ List.mem_cons_self))
  have hbefore : (renamed.table.find (adminUsername (envOf "alice"))).map (fun r => (r.id,r.disabled)) = some (2,false) := by
    decide
  have hafter : (disabled.table.find (adminUsername (envOf "alice"))).map (fun r => (r.id,r.disabled)) = some (2,true) := by
    decide
  obtain ⟨r,hr,hid⟩ := Option.map_eq_some_iff.mp hbefore
  obtain ⟨r',hr',_,hon⟩ := hlast (envOf "alice") rfl r hr
  have := hon (Prod.mk.inj hid).2
  rw [hr'] at hafter
  simp [this] at hafter

end Protek.Access.BreakGlass
