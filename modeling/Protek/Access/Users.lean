import Protek.Foundation.Clock
import Protek.Foundation.KeyedTable
import Protek.Foundation.PyText

/-! # The table of users

Accounts that sign in with a password and accounts that single sign-on provisions
live in one table, keyed by name and numbered by an AUTOINCREMENT id. The account
of `.env` is a row like any other; what sets it apart are its name, which the boot
looks for, and the id 1, which the admin routes refuse to touch.
-/
namespace Protek.Access
open Foundation Foundation.PyText Foundation.Clock

/-- `os.environ`. -/
abbrev Environ := String → Option String

def clean (environ : Environ) (name : String) : String :=
  strip ((split (orElse (environ name) "") '#').headD "")

def adminUsername (environ : Environ) : String := clean environ "APP_USERNAME"

def adminHash (environ : Environ) : String := clean environ "APP_PASSWORD_HASH"

def totpSecret (environ : Environ) : String := clean environ "TOTP_SECRET"

/-- `uname and hash_ and secret`. -/
def AdminSet (environ : Environ) : Prop :=
  adminUsername environ ≠ "" ∧ adminHash environ ≠ "" ∧ totpSecret environ ≠ ""

instance (environ : Environ) : Decidable (AdminSet environ) := inferInstanceAs (Decidable (_ ∧ _))

structure UserRow where
  id : ℕ
  username : String
  passwordHash : String
  totpSecret : String
  role : String
  createdAt : String
  lastLoginAt : Option String := none
  disabled : Bool := false
  deriving DecidableEq, Repr

/-- The rows with the last id given out. An id is never used twice. -/
structure Users where
  table : KeyedTable String UserRow UserRow.username
  seq : ℕ
  nodup_id : (table.rows.map UserRow.id).Nodup
  id_pos : ∀ r ∈ table.rows, 0 < r.id
  id_le : ∀ r ∈ table.rows, r.id ≤ seq

inductive AuthError
  | valueError (text : String)
  /-- The UNIQUE constraint on the name. -/
  | integrityError
  | permissionError (text : String)
  deriving DecidableEq, Repr

namespace Users

def empty : Users := ⟨.empty,0,List.nodup_nil,by simp [KeyedTable.empty],by simp [KeyedTable.empty]⟩

theorem username_id (r : UserRow) : (id r).username = r.username := rfl

def rows (u : Users) : List UserRow := u.table.rows

/-- The row under the next id. -/
def insertFresh (u : Users) (fresh : UserRow) (h : u.table.find fresh.username = none) : Users :=
  have hrows : (u.table.upsert { fresh with id := u.seq + 1 } id username_id).rows =
      u.table.rows ++ [{ fresh with id := u.seq + 1 }] := KeyedTable.rows_upsert_of_none h
  { table := u.table.upsert { fresh with id := u.seq + 1 } id username_id
    seq := u.seq + 1
    nodup_id := by
      rw [hrows, List.map_append]
      refine List.nodup_append.mpr ⟨u.nodup_id,List.nodup_singleton _,?_⟩
      intro a ha b hb he
      obtain ⟨r,hr,rfl⟩ := List.mem_map.mp ha
      have hle := u.id_le r hr
      rw [he, List.mem_singleton.mp hb] at hle
      exact absurd hle (Nat.not_succ_le_self _)
    id_pos := by
      intro r hr
      rw [hrows] at hr
      rcases List.mem_append.mp hr with hr | hr
      · exact u.id_pos r hr
      · rw [List.mem_singleton.mp hr]
        exact Nat.succ_pos _
    id_le := by
      intro r hr
      rw [hrows] at hr
      rcases List.mem_append.mp hr with hr | hr
      · exact (u.id_le r hr).trans (Nat.le_succ _)
      · rw [List.mem_singleton.mp hr] }

def insert (u : Users) (fresh : UserRow) : Except AuthError Users :=
  if h : u.table.find fresh.username = none then .ok (u.insertFresh fresh h) else .error .integrityError

theorem username_ite {userId : ℕ} {f : UserRow → UserRow} (hname : ∀ r, (f r).username = r.username) (r : UserRow) :
    (if r.id = userId then f r else r).username = r.username := by
  by_cases h : r.id = userId
  · simp [h, hname]
  · simp [h]

theorem id_ite {userId : ℕ} {f : UserRow → UserRow} (hid : ∀ r, (f r).id = r.id) (r : UserRow) :
    (if r.id = userId then f r else r).id = r.id := by
  by_cases h : r.id = userId
  · simp [h, hid]
  · simp [h]

/-- `UPDATE users SET … WHERE id = ?`, for a statement that leaves id and name alone. -/
def update (u : Users) (userId : ℕ) (f : UserRow → UserRow) (hname : ∀ r, (f r).username = r.username)
    (hid : ∀ r, (f r).id = r.id) : Users where
  table := u.table.modify (fun r => if r.id = userId then f r else r) (username_ite hname)
  seq := u.seq
  nodup_id := by
    have hids : UserRow.id ∘ (fun r => if r.id = userId then f r else r) = UserRow.id := funext (id_ite hid)
    change ((u.table.rows.map (fun r => if r.id = userId then f r else r)).map UserRow.id).Nodup
    rw [List.map_map, hids]
    exact u.nodup_id
  id_pos := by
    intro r hr
    obtain ⟨q,hq,rfl⟩ := KeyedTable.mem_modify.mp hr
    rw [id_ite hid]
    exact u.id_pos q hq
  id_le := by
    intro r hr
    obtain ⟨q,hq,rfl⟩ := KeyedTable.mem_modify.mp hr
    rw [id_ite hid]
    exact u.id_le q hq

def delete (u : Users) (userId : ℕ) : Users where
  table := u.table.remove (fun r => r.id = userId)
  seq := u.seq
  nodup_id := (List.filter_sublist.map UserRow.id).nodup u.nodup_id
  id_pos r hr := u.id_pos r (KeyedTable.mem_remove.mp hr).1
  id_le r hr := u.id_le r (KeyedTable.mem_remove.mp hr).1

section
variable {u : Users} {fresh r : UserRow} {userId : ℕ} {f : UserRow → UserRow} {hname : ∀ r, (f r).username = r.username}
  {hid : ∀ r, (f r).id = r.id} {name : String}

theorem find_insertFresh (h : u.table.find fresh.username = none) :
    (u.insertFresh fresh h).table.find name =
      if name = fresh.username then some { fresh with id := u.seq + 1 } else u.table.find name := by
  change (u.table.upsert { fresh with id := u.seq + 1 } id username_id).find name = _
  rw [KeyedTable.find_upsert]
  by_cases hn : name = fresh.username
  · subst hn
    rw [if_pos rfl, if_pos rfl, h]
    rfl
  · rw [if_neg hn, if_neg hn]

theorem find_update : (u.update userId f hname hid).table.find name =
    (u.table.find name).map (fun r => if r.id = userId then f r else r) :=
  KeyedTable.find_modify u.table (fun r => if r.id = userId then f r else r) (username_ite hname) name

theorem find_delete : (u.delete userId).table.find name = (u.table.find name).filter (fun r => r.id ≠ userId) := by
  change (u.table.remove (fun r => r.id = userId)).find name = _
  rw [KeyedTable.find_remove]
  congr 1
  funext r
  simp

theorem mem_insertFresh {h : u.table.find fresh.username = none} :
    r ∈ (u.insertFresh fresh h).rows ↔ r ∈ u.rows ∨ r = { fresh with id := u.seq + 1 } := by
  have hrows : (u.table.upsert { fresh with id := u.seq + 1 } id username_id).rows =
      u.table.rows ++ [{ fresh with id := u.seq + 1 }] := KeyedTable.rows_upsert_of_none h
  change r ∈ (u.table.upsert { fresh with id := u.seq + 1 } id username_id).rows ↔ _
  rw [hrows, List.mem_append, List.mem_singleton]
  rfl

theorem mem_update : r ∈ (u.update userId f hname hid).rows ↔ ∃ q ∈ u.rows, (if q.id = userId then f q else q) = r :=
  List.mem_map

theorem mem_delete : r ∈ (u.delete userId).rows ↔ r ∈ u.rows ∧ r.id ≠ userId := by
  change r ∈ (u.table.remove (fun r => r.id = userId)).rows ↔ _
  simp [Users.rows]

/-- No id changes its name or comes back: a row is an old one or has a fresh id. -/
structure Evolves (u u' : Users) : Prop where
  seq_le : u.seq ≤ u'.seq
  row : ∀ r ∈ u'.rows, (∃ q ∈ u.rows, q.id = r.id ∧ q.username = r.username) ∨ u.seq < r.id

theorem Evolves.refl (u : Users) : Evolves u u := ⟨le_rfl,fun r hr => Or.inl ⟨r,hr,rfl,rfl⟩⟩

/-- The row of an id keeps the name it had. -/
theorem Evolves.username_eq {u' : Users} {user : UserRow} (h : u.Evolves u') (hu : user ∈ u.rows) (hr : r ∈ u'.rows)
    (hid : r.id = user.id) : r.username = user.username := by
  rcases h.row r hr with ⟨q,hq,hqid,hname⟩ | hlt
  · rw [← hname, List.inj_on_of_nodup_map u.nodup_id hq hu (hqid.trans hid)]
  · exact absurd (hid ▸ u.id_le user hu) (not_le.mpr hlt)

theorem evolves_update : Evolves u (u.update userId f hname hid) := by
  refine ⟨le_rfl,fun r hr => Or.inl ?_⟩
  obtain ⟨q,hq,rfl⟩ := mem_update.mp hr
  exact ⟨q,hq,(id_ite hid q).symm,(username_ite hname q).symm⟩

theorem evolves_delete : Evolves u (u.delete userId) :=
  ⟨le_rfl,fun r hr => Or.inl ⟨r,(mem_delete.mp hr).1,rfl,rfl⟩⟩

theorem evolves_insertFresh (h : u.table.find fresh.username = none) : Evolves u (u.insertFresh fresh h) := by
  refine ⟨Nat.le_succ _,fun r hr => ?_⟩
  rcases mem_insertFresh.mp hr with hr | rfl
  · exact Or.inl ⟨r,hr,rfl,rfl⟩
  · exact Or.inr (Nat.lt_succ_self _)

end

end Users

/-! ## The functions of `auth` and `oidc` -/

def seedEnvUser (environ : Environ) (now : Instant) (u : Users) : Users :=
  if AdminSet environ then
    match h : u.table.find (adminUsername environ) with
    | some row =>
      if row.passwordHash ≠ adminHash environ ∨ row.totpSecret ≠ totpSecret environ then
        u.update row.id (fun r => { r with
          passwordHash := adminHash environ
          totpSecret := totpSecret environ
          role := "admin"
          disabled := false }) (fun _ => rfl) (fun _ => rfl)
      else u
    | none => u.insertFresh
        { id := 0
          username := adminUsername environ
          passwordHash := adminHash environ
          totpSecret := totpSecret environ
          role := "admin"
          createdAt := isoformat now } h
  else u

def getUserById (u : Users) (uid : ℕ) : Option UserRow :=
  if uid = 0 then none else u.rows.find? (fun r => r.id = uid ∧ r.disabled = false)

def getUser (u : Users) (username : String) : Option UserRow :=
  if username = "" then none else u.rows.find? (fun r => r.username = username ∧ r.disabled = false)

def roles : List String := ["viewer","operator","admin"]

/-- The class of characters behind `str.isalnum` is a parameter, and so is what `bcrypt.hashpw`
returns or raises. -/
def addUser (isAlnum : Char → Bool) (username password role : String) (hashed : Except String String) (secret : String)
    (now : Instant) (u : Users) : Except AuthError Users :=
  let plain := username.toList.filter (fun c => c ≠ '_' ∧ c ≠ '-')
  if plain = [] ∨ plain.all isAlnum = false then .error (.valueError "username must be alphanumeric (plus _ and -)")
  else if password.toList.length < 8 then .error (.valueError "password must be ≥ 8 characters")
  else if role ∉ roles then .error (.valueError "role must be viewer / operator / admin")
  else match hashed with
    | .error text => .error (.valueError text)
    | .ok hash => u.insert
        { id := 0
          username := username
          passwordHash := hash
          totpSecret := secret
          role := role
          createdAt := isoformat now }

def setUserDisabled (userId : ℕ) (disabled : Bool) (u : Users) : Except AuthError Users :=
  if userId = 1 ∧ disabled = true then .error (.valueError "cannot disable the env-anchored admin (user #1)")
  else .ok (u.update userId (fun r => { r with disabled := disabled }) (fun _ => rfl) (fun _ => rfl))

def setUserRole (userId : ℕ) (role : String) (u : Users) : Except AuthError Users :=
  if role ∉ roles then .error (.valueError "role must be viewer / operator / admin")
  else if userId = 1 ∧ role ≠ "admin" then .error (.valueError "cannot demote the env-anchored admin (user #1)")
  else .ok (u.update userId (fun r => { r with role := role }) (fun _ => rfl) (fun _ => rfl))

def deleteUser (userId : ℕ) (u : Users) : Except AuthError Users :=
  if userId = 1 then .error (.valueError "cannot delete the env-anchored admin (user #1)") else .ok (u.delete userId)

def recordUserLogin (userId : ℕ) (now : Instant) (u : Users) : Users :=
  u.update userId (fun r => { r with lastLoginAt := some (isoformat now) }) (fun _ => rfl) (fun _ => rfl)

/-- The id of the account with the table; `pwHash` is the hash of the random password. -/
def upsertSsoUser (email role pwHash : String) (now : Instant) (u : Users) : Except AuthError (ℕ × Users) :=
  match h : u.table.find email with
  | some row =>
    if row.disabled then .error (.permissionError "user disabled")
    else .ok (row.id,u.update row.id (fun r => { r with role := role, lastLoginAt := some (isoformat now) })
      (fun _ => rfl) (fun _ => rfl))
  | none => .ok (u.seq + 1,u.insertFresh
      { id := 0
        username := email
        passwordHash := pwHash
        totpSecret := String.ofList (List.replicate 32 'X')
        role := role
        createdAt := isoformat now
        lastLoginAt := some (isoformat now) } h)

/-! ## Calls -/

inductive Op
  | setUserDisabled (userId : ℕ) (disabled : Bool)
  | setUserRole (userId : ℕ) (role : String)
  | deleteUser (userId : ℕ)
  | addUser (username password role : String) (hashed : Except String String) (secret : String)
  | upsertSsoUser (email role pwHash : String)

section
variable (isAlnum : Char → Bool) (now : Instant)

/-- The table after a call, which is the old one where the call raises. -/
def Op.run (u : Users) : Op → Users
  | .setUserDisabled userId disabled => (Access.setUserDisabled userId disabled u).toOption.getD u
  | .setUserRole userId role => (Access.setUserRole userId role u).toOption.getD u
  | .deleteUser userId => (Access.deleteUser userId u).toOption.getD u
  | .addUser username password role hashed secret =>
    (Access.addUser isAlnum username password role hashed secret now u).toOption.getD u
  | .upsertSsoUser email role pwHash => ((Access.upsertSsoUser email role pwHash now u).toOption.map Prod.snd).getD u

end

section
variable {isAlnum : Char → Bool} {u u' : Users} {now : Instant} {name : String} {r : UserRow}

/-- What a call does to one row. -/
def Op.effect (now : Instant) (r : UserRow) : Op → Option UserRow
  | .setUserDisabled userId disabled =>
    some (if r.id = userId ∧ ¬ (userId = 1 ∧ disabled = true) then { r with disabled := disabled } else r)
  | .setUserRole userId role =>
    some (if r.id = userId ∧ role ∈ roles ∧ ¬ (userId = 1 ∧ role ≠ "admin") then { r with role := role } else r)
  | .deleteUser userId => if r.id = userId ∧ userId ≠ 1 then none else some r
  | .addUser _ _ _ _ _ => some r
  | .upsertSsoUser email role _ =>
    some (if r.username = email ∧ r.disabled = false then { r with role := role, lastLoginAt := some (isoformat now) } else r)

/-- A row under the name of another stays where it is. -/
theorem find_insert_other {fresh : UserRow} (h : u.table.find name = some r) :
    (((u.insert fresh).toOption).getD u).table.find name = some r := by
  unfold Users.insert
  split
  · next hnone =>
    have hne : name ≠ fresh.username := by
      rintro rfl
      rw [h] at hnone
      cases hnone
    change (u.insertFresh fresh hnone).table.find name = some r
    rw [Users.find_insertFresh, if_neg hne, h]
  · exact h

/-- A sign-on writes the row under its own name, and only while that row is not disabled. -/
theorem find_upsertSsoUser (email role pwHash : String) (h : u.table.find name = some r) :
    ((Op.upsertSsoUser email role pwHash).run isAlnum now u).table.find name = (Op.upsertSsoUser email role pwHash).effect now r := by
  dsimp only [Op.run, Op.effect]
  unfold upsertSsoUser
  have hname : r.username = name := (KeyedTable.find_eq_some.mp h).2
  split
  · next row hrow =>
    by_cases he : r.username = email
    · have hsame : row = r := by
        rw [← he, hname, h] at hrow
        exact (Option.some.inj hrow).symm
      subst hsame
      cases hd : row.disabled with
      | true => simp [h, Except.toOption]
      | false =>
        simp only [Bool.false_eq_true, if_false, Except.toOption, Option.map_some, Option.getD_some, he, and_self, if_true]
        rw [Users.find_update, h]
        simp [he, hd]
    · have hid : r.id ≠ row.id := by
        intro hid
        obtain ⟨hr,_⟩ := KeyedTable.find_eq_some.mp h
        obtain ⟨hrow',hrn⟩ := KeyedTable.find_eq_some.mp hrow
        rw [List.inj_on_of_nodup_map u.nodup_id hr hrow' hid] at he
        exact he hrn
      cases hd : row.disabled with
      | true => simp [he, h, Except.toOption]
      | false =>
        simp only [Bool.false_eq_true, if_false, Except.toOption, Option.map_some, Option.getD_some, he, false_and]
        rw [Users.find_update, h]
        simp [hid]
  · next hnone =>
    have hne : r.username ≠ email := by
      rintro rfl
      rw [hname, h] at hnone
      cases hnone
    simp only [Except.toOption, Option.map_some, Option.getD_some, hne, false_and, if_false]
    rw [Users.find_insertFresh, if_neg (hname ▸ hne), h]

theorem find_run (o : Op) (h : u.table.find name = some r) : (o.run isAlnum now u).table.find name = o.effect now r := by
  cases o with
  | setUserDisabled userId disabled =>
    unfold Op.run Op.effect setUserDisabled
    by_cases hg : userId = 1 ∧ disabled = true
    · simp [hg, h, Except.toOption]
    · simp only [hg, if_false, Except.toOption, Option.getD_some, not_false_eq_true, and_true]
      rw [Users.find_update, h]
      rfl
  | setUserRole userId role =>
    unfold Op.run Op.effect setUserRole
    by_cases hr : role ∈ roles
    · by_cases hg : userId = 1 ∧ role ≠ "admin"
      · simp [hr, hg, h, Except.toOption]
      · simp only [hr, hg, not_true_eq_false, if_false, Except.toOption, Option.getD_some, not_false_eq_true, and_true]
        rw [Users.find_update, h]
        rfl
    · simp [hr, h, Except.toOption]
  | deleteUser userId =>
    unfold Op.run Op.effect deleteUser
    by_cases hg : userId = 1
    · simp [hg, h, Except.toOption]
    · simp only [hg, if_false, Except.toOption, Option.getD_some, ne_eq, not_false_eq_true, and_true]
      rw [Users.find_delete, h]
      by_cases hid : r.id = userId
      · simp [hid]
      · simp [hid]
  | addUser username password role hashed secret =>
    unfold Op.run Op.effect addUser
    dsimp only
    split
    · exact h
    · split
      · exact h
      · split
        · exact h
        · split
          · exact h
          · exact find_insert_other h
  | upsertSsoUser email role pwHash => exact find_upsertSsoUser email role pwHash h

theorem getUserById_spec {uid : ℕ} (h : getUserById u uid = some r) : r ∈ u.rows ∧ r.id = uid ∧ r.disabled = false := by
  unfold getUserById at h
  split at h
  · cases h
  · exact ⟨List.mem_of_find?_eq_some h,by simpa using List.find?_some h⟩

theorem getUser_spec (h : getUser u name = some r) : r ∈ u.rows ∧ r.username = name ∧ r.disabled = false := by
  unfold getUser at h
  split at h
  · cases h
  · exact ⟨List.mem_of_find?_eq_some h,by simpa using List.find?_some h⟩

theorem evolves_insert {fresh : UserRow} (h : u.insert fresh = .ok u') : u.Evolves u' := by
  unfold Users.insert at h
  split at h
  · cases h
    exact Users.evolves_insertFresh _
  · cases h

theorem evolves_seedEnvUser (environ : Environ) : u.Evolves (seedEnvUser environ now u) := by
  unfold seedEnvUser
  split
  · split
    · split
      · exact Users.evolves_update
      · exact Users.Evolves.refl u
    · exact Users.evolves_insertFresh _
  · exact Users.Evolves.refl u

theorem evolves_addUser {isAlnum : Char → Bool} {username password role secret : String} {hashed : Except String String}
    (h : addUser isAlnum username password role hashed secret now u = .ok u') : u.Evolves u' := by
  unfold addUser at h
  dsimp only at h
  split at h
  · cases h
  · split at h
    · cases h
    · split at h
      · cases h
      · split at h
        · cases h
        · exact evolves_insert h

theorem evolves_setUserDisabled {userId : ℕ} {disabled : Bool} (h : setUserDisabled userId disabled u = .ok u') :
    u.Evolves u' := by
  unfold setUserDisabled at h
  split at h
  · cases h
  · cases h
    exact Users.evolves_update

theorem evolves_setUserRole {userId : ℕ} {role : String} (h : setUserRole userId role u = .ok u') : u.Evolves u' := by
  unfold setUserRole at h
  split at h
  · cases h
  · split at h
    · cases h
    · cases h
      exact Users.evolves_update

theorem evolves_deleteUser {userId : ℕ} (h : deleteUser userId u = .ok u') : u.Evolves u' := by
  unfold deleteUser at h
  split at h
  · cases h
  · cases h
    exact Users.evolves_delete

/-- Provisioning returns the id of the row under the address. -/
theorem upsertSsoUser_spec {email role pwHash : String} {userId : ℕ}
    (h : upsertSsoUser email role pwHash now u = .ok (userId,u')) :
    u.Evolves u' ∧ ∃ r ∈ u'.rows, r.id = userId ∧ r.username = email := by
  unfold upsertSsoUser at h
  split at h
  · next row hrow =>
    obtain ⟨hmem,hname⟩ := KeyedTable.find_eq_some.mp hrow
    split at h
    · cases h
    · cases h
      refine ⟨Users.evolves_update,_,Users.mem_update.mpr ⟨row,hmem,rfl⟩,?_,?_⟩
      · simp
      · simp [hname]
  · next hnone =>
    cases h
    exact ⟨Users.evolves_insertFresh hnone,_,Users.mem_insertFresh.mpr (Or.inr rfl),rfl,rfl⟩

theorem evolves_run (o : Op) : u.Evolves (o.run isAlnum now u) := by
  have hcall : ∀ res : Except AuthError Users, (∀ u', res = .ok u' → u.Evolves u') → u.Evolves (res.toOption.getD u) := by
    intro res hres
    cases res with
    | error e => exact Users.Evolves.refl u
    | ok u' => exact hres u' rfl
  cases o with
  | setUserDisabled userId disabled => exact hcall _ (fun _ h => evolves_setUserDisabled h)
  | setUserRole userId role => exact hcall _ (fun _ h => evolves_setUserRole h)
  | deleteUser userId => exact hcall _ (fun _ h => evolves_deleteUser h)
  | addUser username password role hashed secret => exact hcall _ (fun _ h => evolves_addUser h)
  | upsertSsoUser email role pwHash =>
    dsimp only [Op.run]
    cases h : upsertSsoUser email role pwHash now u with
    | error e => exact Users.Evolves.refl u
    | ok res => exact (upsertSsoUser_spec h).1

end

end Protek.Access
