import NexusEngine.StoredColumns
import NexusEngine.KeyedTables

/-!
# The tables of accounts

Users, the refresh tokens of their sessions and the tokens that reset their passwords. No two
users have one email, and only the hash of a token is stored.
-/

namespace NexusEngine.AccountTables

open StoredColumns KeyedTables CalendarTime

structure User where
  id : Uuid
  email : String
  displayName : String
  hashedPassword : String
  isActive : Bool
  isAdmin : Bool
  deriving DecidableEq, Repr

structure RefreshToken where
  id : Uuid
  userId : Uuid
  tokenHash : String
  expiresAt : Instant
  revokedAt : Option Instant
  createdAt : Instant
  deriving DecidableEq, Repr

structure PasswordResetToken where
  id : Uuid
  userId : Uuid
  tokenHash : String
  expiresAt : Instant
  usedAt : Option Instant
  deriving DecidableEq, Repr

structure AccountStore where
  users : Table User Uuid User.id
  refreshTokens : Table RefreshToken Uuid RefreshToken.id
  passwordResetTokens : Table PasswordResetToken Uuid PasswordResetToken.id

def AccountStore.empty : AccountStore := ⟨.empty, .empty, .empty⟩

/-! ## Statements -/

/-- The columns of a user that an administrator changes. -/
structure UserPatch where
  displayName : Option String
  isAdmin : Option Bool
  deriving DecidableEq, Repr

def UserPatch.apply (p : UserPatch) (u : User) : User :=
  { u with
    displayName := p.displayName.getD u.displayName
    isAdmin := p.isAdmin.getD u.isAdmin }

def User.diff (old new : User) : UserPatch where
  displayName := changed old.displayName new.displayName
  isAdmin := changed old.isAdmin new.isAdmin

inductive AccountStatement where
  | insertUser (u : User)
  | updateUser (id : Uuid) (patch : UserPatch)
  | updatePassword (id : Uuid) (hashedPassword : String)
  | updateIsActive (id : Uuid) (isActive : Bool)
  | insertRefreshToken (t : RefreshToken)
  | updateRefreshToken (id : Uuid) (revokedAt : Instant)
  | insertPasswordResetToken (t : PasswordResetToken)
  | updatePasswordResetToken (id : Uuid) (usedAt : Instant)
  deriving DecidableEq, Repr

namespace AccountStore

def insertUser (s : AccountStore) (u : User) : Option AccountStore := do
  let email ← varchar 255 u.email
  let displayName ← varchar 120 u.displayName
  let hashedPassword ← varchar 255 u.hashedPassword
  if s.users.rows.any fun r => r.email == email then none
  else
    let users ← s.users.insert
      { u with email := email, displayName := displayName, hashedPassword := hashedPassword }
    return { s with users := users }

def updateUser (s : AccountStore) (id : Uuid) (patch : UserPatch) : Option AccountStore := do
  let displayName ← nullable (varchar 120) patch.displayName
  let users ← s.users.update id { patch with displayName := displayName }.apply fun _ => rfl
  return { s with users := users }

def updatePassword (s : AccountStore) (id : Uuid) (hashedPassword : String) :
    Option AccountStore := do
  let hashedPassword ← varchar 255 hashedPassword
  let users ← s.users.update id (fun u => { u with hashedPassword := hashedPassword }) fun _ => rfl
  return { s with users := users }

def updateIsActive (s : AccountStore) (id : Uuid) (isActive : Bool) : Option AccountStore :=
  (s.users.update id (fun u => { u with isActive := isActive }) fun _ => rfl).map fun users =>
    { s with users := users }

def insertRefreshToken (s : AccountStore) (t : RefreshToken) : Option AccountStore := do
  let tokenHash ← varchar 64 t.tokenHash
  if s.refreshTokens.rows.any fun r => r.tokenHash == tokenHash then none
  else if (s.users.find? t.userId).isSome then
    let tokens ← s.refreshTokens.insert { t with tokenHash := tokenHash }
    return { s with refreshTokens := tokens }
  else none

def updateRefreshToken (s : AccountStore) (id : Uuid) (revokedAt : Instant) :
    Option AccountStore :=
  (s.refreshTokens.update id (fun t => { t with revokedAt := some revokedAt }) fun _ => rfl).map
    fun tokens => { s with refreshTokens := tokens }

def insertPasswordResetToken (s : AccountStore) (t : PasswordResetToken) :
    Option AccountStore := do
  let tokenHash ← varchar 64 t.tokenHash
  if s.passwordResetTokens.rows.any fun r => r.tokenHash == tokenHash then none
  else if (s.users.find? t.userId).isSome then
    let tokens ← s.passwordResetTokens.insert { t with tokenHash := tokenHash }
    return { s with passwordResetTokens := tokens }
  else none

def updatePasswordResetToken (s : AccountStore) (id : Uuid) (usedAt : Instant) :
    Option AccountStore :=
  (s.passwordResetTokens.update id (fun t => { t with usedAt := some usedAt }) fun _ => rfl).map
    fun tokens => { s with passwordResetTokens := tokens }

end AccountStore

def AccountStatement.apply : AccountStatement → AccountStore → Option AccountStore
  | .insertUser u, s => s.insertUser u
  | .updateUser id patch, s => s.updateUser id patch
  | .updatePassword id hashedPassword, s => s.updatePassword id hashedPassword
  | .updateIsActive id isActive, s => s.updateIsActive id isActive
  | .insertRefreshToken t, s => s.insertRefreshToken t
  | .updateRefreshToken id revokedAt, s => s.updateRefreshToken id revokedAt
  | .insertPasswordResetToken t, s => s.insertPasswordResetToken t
  | .updatePasswordResetToken id usedAt, s => s.updatePasswordResetToken id usedAt

/-- The user whose row an update writes. -/
def AccountStatement.user : AccountStatement → Option Uuid
  | .updateUser id _ => some id
  | .updatePassword id _ => some id
  | .updateIsActive id _ => some id
  | _ => none

def AccountStatement.conflicts : AccountStatement → AccountStatement → Bool
  | .insertUser u, .insertUser u' => u.id == u'.id || u.email == u'.email
  | .insertRefreshToken t, .insertRefreshToken t' => t.id == t'.id || t.tokenHash == t'.tokenHash
  | .updateRefreshToken id _, .updateRefreshToken id' _ => id == id'
  | .insertPasswordResetToken t, .insertPasswordResetToken t' =>
    t.id == t'.id || t.tokenHash == t'.tokenHash
  | .updatePasswordResetToken id _, .updatePasswordResetToken id' _ => id == id'
  | w, w' => w.user.isSome && w.user == w'.user

/-! ## What an accepted statement does -/

namespace AccountStore

variable {s s' : AccountStore}

/-- An inserted user is stored but for blanks cut off the texts, and no other one has the email. -/
theorem insertUser_eq_some {u : User} : s.insertUser u = some s' ↔
    ∃ email displayName hashedPassword users, varchar 255 u.email = some email ∧
      varchar 120 u.displayName = some displayName ∧
      varchar 255 u.hashedPassword = some hashedPassword ∧
      (∀ r ∈ s.users.rows, r.email ≠ email) ∧
      s.users.insert { u with
        email := email, displayName := displayName, hashedPassword := hashedPassword } =
          some users ∧
      s' = { s with users := users } := by
  simp only [insertUser, Option.bind_eq_bind, Option.bind_eq_some_iff,
    Option.ite_none_left_eq_some, Option.pure_def, Option.some.injEq, List.any_eq_true, beq_iff_eq,
    not_exists, not_and]
  constructor
  · rintro ⟨email, hemail, displayName, hname, hashedPassword, hhash, hfresh, users, hinsert, rfl⟩
    exact ⟨email, displayName, hashedPassword, users, hemail, hname, hhash, hfresh, hinsert, rfl⟩
  · rintro ⟨email, displayName, hashedPassword, users, hemail, hname, hhash, hfresh, hinsert, rfl⟩
    exact ⟨email, hemail, displayName, hname, hashedPassword, hhash, hfresh, users, hinsert, rfl⟩

theorem updateUser_eq_some {id : Uuid} {patch : UserPatch} : s.updateUser id patch = some s' ↔
    ∃ displayName users, nullable (varchar 120) patch.displayName = some displayName ∧
      s.users.update id { patch with displayName := displayName }.apply (fun _ => rfl) =
        some users ∧
      s' = { s with users := users } := by
  simp only [updateUser, Option.bind_eq_bind, Option.bind_eq_some_iff, Option.pure_def,
    Option.some.injEq]
  constructor
  · rintro ⟨displayName, hname, users, hupdate, rfl⟩
    exact ⟨displayName, users, hname, hupdate, rfl⟩
  · rintro ⟨displayName, users, hname, hupdate, rfl⟩
    exact ⟨displayName, hname, users, hupdate, rfl⟩

end AccountStore

end NexusEngine.AccountTables
