import NexusEngine.Database
import NexusEngine.PythonText

/-!
# The service of sessions and passwords

A login issues a refresh token, which is redeemed once for the next one. Changing a password, with
the old one or with a reset token, revokes the refresh tokens of the user. The hash of a token,
the hash of a password and its check are parameters.
-/

namespace NexusEngine.AuthService

open TransactionalRequests TextEncodings CalendarTime StoredColumns PythonText KeyedTables
  AccountTables Database

/-- The hashes. A password hash takes a salt, and neither it nor the check of a password returns
where the library raises. -/
structure AuthCrypto where
  sha256 : Bytes → Bytes
  hashPassword : ℕ → String → Option String
  verifyPassword : String → String → Option Bool

structure AuthSettings where
  tables : CharacterTables
  refreshTokenExpireDays : ℕ := 30

/-- What an operation draws from its surroundings: the readings of the clock, one after the other,
the identifier, the raw token and the timestamp of the row it inserts, and a salt. -/
structure AuthEnv where
  now : ℕ → Instant
  uuid4 : Uuid
  rawToken : String
  salt : ℕ
  createdAt : Instant

def AuthCrypto.hashRefreshToken (crypto : AuthCrypto) (rawToken : String) : String :=
  hexdigest (crypto.sha256 (utf8 (chars rawToken)))

def passwordResetExpireMinutes : ℕ := 60

def days (n : ℕ) : ℕ := n * 86400000000

def minutes (n : ℕ) : ℕ := n * 60000000

/-- The row of a result with at most one. -/
def scalarOneOrNone {α : Type} : List α → Service (Option α)
  | [] => return none
  | [row] => return some row
  | _ => .raise .exception

/-! ## Signing in -/

def userByEmail (settings : AuthSettings) (email : String) : Service (Option User) := do
  let key := String.ofList (settings.tables.lower (chars email))
  -- no text with a NUL character gets to the database
  ensure ((text key).isSome = true) .rejected
  let rows ← Request.select fun db => db.accounts.users.rows.filter fun u => u.email = key
  scalarOneOrNone rows

def authenticateUser (crypto : AuthCrypto) (settings : AuthSettings) (email password : String) :
    Service (Option User) := do
  let user ← userByEmail settings email
  match user.filter User.isActive with
  | none => return none
  | some user => do
    let verified ← found (crypto.verifyPassword password user.hashedPassword) .exception
    return if verified then some user else none

/-- The row that is stored for a token. -/
def AuthCrypto.refreshToken (crypto : AuthCrypto) (settings : AuthSettings) (env : AuthEnv)
    (user : User) : RefreshToken where
  id := env.uuid4
  userId := user.id
  tokenHash := crypto.hashRefreshToken env.rawToken
  expiresAt := env.now 0 + days settings.refreshTokenExpireDays
  revokedAt := none
  createdAt := env.createdAt

def issueRefreshToken (crypto : AuthCrypto) (settings : AuthSettings) (env : AuthEnv)
    (user : User) : Service String := do
  Request.send fun _ => [.account (.insertRefreshToken (crypto.refreshToken settings env user))]
  Request.commitTransaction
  return env.rawToken

def login (crypto : AuthCrypto) (settings : AuthSettings) (env : AuthEnv)
    (email password : String) : Service (User × String) := do
  let user ← authenticateUser crypto settings email password
  let user ← found user (.http 401 "Incorrect email or password")
  let rawToken ← issueRefreshToken crypto settings env user
  return (user, rawToken)

/-! ## Redeeming and revoking -/

def tokenByHash (crypto : AuthCrypto) (rawToken : String) : Service (Option RefreshToken) := do
  let rows ← Request.select fun db =>
    db.accounts.refreshTokens.rows.filter fun t => t.tokenHash = crypto.hashRefreshToken rawToken
  scalarOneOrNone rows

/-- Revoke a token that has been found good, and read its user. -/
def rotate (env : AuthEnv) (token : RefreshToken) : Service (Option User) := do
  let user ← Request.select fun db => db.accounts.users.find? token.userId
  Request.send fun _ => [.account (.updateRefreshToken token.id (env.now 1))]
  Request.commitTransaction
  return user.filter User.isActive

/-- The token is there, and neither revoked nor expired. -/
def redeemable (now : Instant) (token : Option RefreshToken) : Option RefreshToken :=
  token.filter fun t => t.revokedAt.isNone && !decide (t.expiresAt < now)

def redeemRefreshToken (crypto : AuthCrypto) (env : AuthEnv) (rawToken : String) :
    Service (Option User) := do
  let token ← tokenByHash crypto rawToken
  match redeemable (env.now 0) token with
  | none => return none
  | some token => rotate env token

/-- What a refresh does once the presented token has been redeemed. -/
def issueNext (crypto : AuthCrypto) (settings : AuthSettings) (env : AuthEnv)
    (user : Option User) : Service (User × String) := do
  let user ← found user (.http 401 "Refresh token is invalid, expired, or already used")
  let rawToken ← issueRefreshToken crypto settings env user
  return (user, rawToken)

/-- The two transactions of a refresh. -/
def refresh (crypto : AuthCrypto) (settings : AuthSettings) (env env' : AuthEnv)
    (rawToken : String) : Service (User × String) := do
  let user ← redeemRefreshToken crypto env rawToken
  issueNext crypto settings env' user

def revokeRefreshToken (crypto : AuthCrypto) (env : AuthEnv) (rawToken : String) :
    Service Unit := do
  let token ← tokenByHash crypto rawToken
  match token.filter fun t => t.revokedAt.isNone with
  | none => return ()
  | some token => do
    Request.send fun _ => [.account (.updateRefreshToken token.id (env.now 0))]
    Request.commitTransaction

/-! ## Passwords -/

/-- The tokens of a user that are not revoked. -/
def activeTokens (s : AccountStore) (userId : Uuid) : List RefreshToken :=
  s.refreshTokens.rows.filter fun t => t.userId = userId && t.revokedAt.isNone

/-- The update of every token of a user that has been read. -/
def revokeStatements (now : Instant) (tokens : List RefreshToken) : List Statement :=
  tokens.map fun t => .account (.updateRefreshToken t.id now)

def getCurrentUser (userId : Uuid) : Service User := do
  let user ← Request.select fun db => db.accounts.users.find? userId
  found (user.filter User.isActive) (.http 401 "Could not validate credentials")

/-- A hash is salted afresh, so that the password column is always written. -/
def changePassword (crypto : AuthCrypto) (env : AuthEnv) (user : User)
    (currentPassword newPassword : String) : Service Unit := do
  let verified ← found (crypto.verifyPassword currentPassword user.hashedPassword) .exception
  ensure (verified = true) (.http 400 "Current password is incorrect")
  let hashedPassword ← found (crypto.hashPassword env.salt newPassword) .exception
  let tokens ← Request.select fun db => activeTokens db.accounts user.id
  Request.send fun _ => .account (.updatePassword user.id hashedPassword) ::
    revokeStatements (env.now 0) tokens
  Request.commitTransaction

def changeOwnPassword (crypto : AuthCrypto) (env : AuthEnv) (userId : Uuid)
    (currentPassword newPassword : String) : Service Unit := do
  let user ← getCurrentUser userId
  changePassword crypto env user currentPassword newPassword

def AuthCrypto.passwordResetToken (crypto : AuthCrypto) (env : AuthEnv) (user : User) :
    PasswordResetToken where
  id := env.uuid4
  userId := user.id
  tokenHash := crypto.hashRefreshToken env.rawToken
  expiresAt := env.now 0 + minutes passwordResetExpireMinutes
  usedAt := none

def createPasswordResetToken (crypto : AuthCrypto) (settings : AuthSettings) (env : AuthEnv)
    (email : String) : Service (Option String) := do
  let user ← userByEmail settings email
  match user.filter User.isActive with
  | none => return none
  | some user => do
    Request.send fun _ =>
      [.account (.insertPasswordResetToken (crypto.passwordResetToken env user))]
    Request.commitTransaction
    return some env.rawToken

/-- The token is there, and neither used nor expired. -/
def usable (now : Instant) (token : Option PasswordResetToken) : Option PasswordResetToken :=
  token.filter fun t => t.usedAt.isNone && !decide (t.expiresAt < now)

/-- Set a new password with a token that has been found good, for a user who is active. -/
def consumeResetToken (crypto : AuthCrypto) (env : AuthEnv) (token : PasswordResetToken)
    (newPassword : String) : Service Bool := do
  let user ← Request.select fun db => db.accounts.users.find? token.userId
  match user.filter User.isActive with
  | none => return false
  | some user => do
    let hashedPassword ← found (crypto.hashPassword env.salt newPassword) .exception
    let tokens ← Request.select fun db => activeTokens db.accounts user.id
    Request.send fun _ => .account (.updatePassword user.id hashedPassword) ::
      .account (.updatePasswordResetToken token.id (env.now 0)) ::
      revokeStatements (env.now 1) tokens
    Request.commitTransaction
    return true

def resetTokenByHash (crypto : AuthCrypto) (rawToken : String) :
    Service (Option PasswordResetToken) := do
  let rows ← Request.select fun db => db.accounts.passwordResetTokens.rows.filter fun t =>
    t.tokenHash = crypto.hashRefreshToken rawToken
  scalarOneOrNone rows

def resetPassword (crypto : AuthCrypto) (env : AuthEnv) (rawToken newPassword : String) :
    Service Bool := do
  let token ← resetTokenByHash crypto rawToken
  match usable (env.now 0) token with
  | none => return false
  | some token => consumeResetToken crypto env token newPassword

/-! ## Activation -/

/-- The user is read again from the session, which holds what has been committed. -/
def setUserActive (userId : Uuid) (isActive : Bool) : Service User := do
  let user ← Request.select fun db => db.accounts.users.find? userId
  let user ← found user (.http 404 "User not found")
  Request.send fun _ => if isActive = user.isActive then []
    else [.account (.updateIsActive user.id isActive)]
  Request.commitTransaction
  return { user with isActive := isActive }

/-! ## Requests -/

inductive AuthRequest where
  | login (env : AuthEnv) (email password : String)
  | issue (env : AuthEnv) (user : User)
  | redeem (env : AuthEnv) (rawToken : String)
  | revoke (env : AuthEnv) (rawToken : String)
  | changePassword (env : AuthEnv) (userId : Uuid) (currentPassword newPassword : String)
  | createPasswordResetToken (env : AuthEnv) (email : String)
  | resetPassword (env : AuthEnv) (rawToken newPassword : String)
  | setUserActive (userId : Uuid) (isActive : Bool)

/-- The raw refresh token that a request presents. -/
def AuthRequest.presents : AuthRequest → Option String
  | redeem _ rawToken => some rawToken
  | revoke _ rawToken => some rawToken
  | _ => none

inductive AuthResponse where
  | issued (userId : Uuid) (rawToken : String)
  | redeemed (user : Option User)
  | passwordChanged (userId : Uuid)
  | resetTokenIssued (rawToken : Option String)
  | passwordReset (done : Bool)
  | done
  deriving DecidableEq, Repr

def AuthRequest.request (crypto : AuthCrypto) (settings : AuthSettings) :
    AuthRequest → Service AuthResponse
  | login env email password => do
    let (user, rawToken) ← AuthService.login crypto settings env email password
    return .issued user.id rawToken
  | issue env user => do
    let rawToken ← issueRefreshToken crypto settings env user
    return .issued user.id rawToken
  | redeem env rawToken => do
    let user ← redeemRefreshToken crypto env rawToken
    return .redeemed user
  | revoke env rawToken => do
    revokeRefreshToken crypto env rawToken
    return .done
  | changePassword env userId currentPassword newPassword => do
    changeOwnPassword crypto env userId currentPassword newPassword
    return .passwordChanged userId
  | createPasswordResetToken env email => do
    let rawToken ← AuthService.createPasswordResetToken crypto settings env email
    return .resetTokenIssued rawToken
  | resetPassword env rawToken newPassword => do
    let done ← AuthService.resetPassword crypto env rawToken newPassword
    return .passwordReset done
  | setUserActive userId isActive => do
    let _ ← AuthService.setUserActive userId isActive
    return .done

end NexusEngine.AuthService
