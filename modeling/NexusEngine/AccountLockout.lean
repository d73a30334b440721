import NexusEngine.SafeServices
import NexusEngine.AccountLogins

/-!
# Accounts that are deactivated

A deactivated account is out of use at once. Whatever requests follow, in whatever interleaving, no
session is granted anything in its name, it gets no token and no password, and it cannot be
activated with its own credentials. What is left to do with its tokens is to revoke them.
-/

namespace NexusEngine.AccountLockout

open TransactionalRequests ReadCommittedSessions StoredColumns KeyedTables AccountTables Database
  AuthService AuthLifecycle RbacService AccountLogins AuditedOperations QuietRequests SafeServices

/-! ## Access -/

/-- The library of access tokens: the claim `sub` of a token that it accepts, and the reading of an
identifier. -/
structure AccessTokens where
  decodeAccessToken : String → Option (Option String)
  parseUuid : String → Option Uuid

def credentialsError : ServiceError := .http 401 "Could not validate credentials"

/-- Whom the credentials name. -/
def AccessTokens.subject (tokens : AccessTokens) (credentials : Option String) : Option Uuid := do
  let token ← credentials
  let payload ← tokens.decodeAccessToken token
  let sub ← payload
  tokens.parseUuid sub

def currentUser (tokens : AccessTokens) (credentials : Option String) : Service User := do
  let userId ← found (tokens.subject credentials) credentialsError
  getCurrentUser userId

def requireAdmin (tokens : AccessTokens) (credentials : Option String) : Service User := do
  let user ← currentUser tokens credentials
  ensure (user.isAdmin = true) (.http 403 "This action requires administrator privileges")
  return user

/-! ## Requests -/

/-- The statement leaves the accounts to be. -/
def KeepsAccounts (w : Statement) : Prop := ∀ statement, w ≠ .account statement

/-- A request that concerns accounts, or one to an endpoint that asks for credentials. -/
inductive AccountRequest where
  | login (env : AuthEnv) (email password : String)
  | refresh (env env' : AuthEnv) (rawToken : String)
  | logout (env : AuthEnv) (rawToken : String)
  | changeOwnPassword (env : AuthEnv) (credentials : Option String)
    (currentPassword newPassword : String)
  | forgotPassword (env : AuthEnv) (email : String)
  | resetOwnPassword (env : AuthEnv) (rawToken newPassword : String)
  | setUserActive (credentials : Option String) (userId : Uuid) (isActive : Bool)
  | users (credentials : Option String) (r : UserRequest)
  | authenticated (credentials : Option String) (body : User → Service Unit)
    (keeps : ∀ user, (body user).Sends KeepsAccounts)
  | administrative (credentials : Option String) (body : User → Service Unit)
    (keeps : ∀ user, (body user).Sends KeepsAccounts)

section

variable (crypto : AuthCrypto) (settings : AuthSettings) (tokens : AccessTokens)

/-- The request, answered with the user in whose name it is granted, where it is for one. -/
def AccountRequest.request : AccountRequest → Service (Option Uuid)
  | login env email password => do
    let (user, _) ← AuthService.login crypto settings env email password
    return some user.id
  | refresh env env' rawToken => do
    let (user, _) ← AuthService.refresh crypto settings env env' rawToken
    return some user.id
  | logout env rawToken => do
    revokeRefreshToken crypto env rawToken
    return none
  | changeOwnPassword env credentials currentPassword newPassword => do
    let user ← currentUser tokens credentials
    changePassword crypto env user currentPassword newPassword
    return some user.id
  | forgotPassword env email => do
    let _ ← createPasswordResetToken crypto settings env email
    return none
  | resetOwnPassword env rawToken newPassword => do
    let done ← resetPassword crypto env rawToken newPassword
    ensure (done = true) (.http 400 "Reset token is invalid, expired, or already used")
    return none
  | setUserActive credentials userId isActive => do
    let admin ← requireAdmin tokens credentials
    let _ ← AuthService.setUserActive userId isActive
    return some admin.id
  | users credentials r => do
    let admin ← requireAdmin tokens credentials
    let _ ← r.request crypto
    return some admin.id
  | authenticated credentials body _ => do
    let user ← currentUser tokens credentials
    body user
    return some user.id
  | administrative credentials body _ => do
    let admin ← requireAdmin tokens credentials
    body admin
    return some admin.id

end

/-! ## What is left of an account -/

/-- The user is inactive and has the password of before, no token is new, and no reset token has
been used. -/
structure LockedOut (u : Uuid) (s₀ s : AccountStore) : Prop where
  user : ∃ row ∈ s.users.rows, row.id = u ∧ row.isActive = false ∧
    ∀ row₀ ∈ s₀.users.rows, row₀.id = u → row₀.hashedPassword = row.hashedPassword
  refreshTokens : ∀ t ∈ s.refreshTokens.rows, t.userId = u → ∃ t₀ ∈ s₀.refreshTokens.rows,
    t = t₀ ∨ ∃ now, t = { t₀ with revokedAt := some now }
  resetTokens : ∀ t ∈ s.passwordResetTokens.rows, t.userId = u → t ∈ s₀.passwordResetTokens.rows

/-- Reset tokens stay where they are, each with its user. -/
def KeepsOwners (db db' : Db) : Prop :=
  ∀ t ∈ db.accounts.passwordResetTokens.rows, ∃ t' ∈ db'.accounts.passwordResetTokens.rows,
    t'.id = t.id ∧ t'.userId = t.userId

/-- The reset token is another user's. -/
def Foreign (u id : Uuid) (db : Db) : Prop :=
  ∃ t ∈ db.accounts.passwordResetTokens.rows, t.id = id ∧ t.userId ≠ u

/-- The statement gives the user nothing. `foreign` are the reset tokens that it may use. -/
def Spares (u : Uuid) (foreign : Uuid → Prop) : Statement → Prop
  | .account (.updatePassword id _) => id ≠ u
  | .account (.updateIsActive id isActive) => id = u → isActive = false
  | .account (.insertRefreshToken t) => t.userId ≠ u
  | .account (.insertPasswordResetToken t) => t.userId ≠ u
  | .account (.updatePasswordResetToken id _) => foreign id
  | _ => True

section

variable {u : Uuid} {s₀ s s' : AccountStore}

/-- An active user is another one. -/
theorem LockedOut.ne_of_active (h : LockedOut u s₀ s) {user : User} (huser : user ∈ s.users.rows)
    (hactive : user.isActive = true) : user.id ≠ u := by
  obtain ⟨row, hrow, hid, hinactive, -⟩ := h.user
  intro heq
  obtain rfl : user = row := s.users.eq_of_key_eq huser hrow (heq.trans hid.symm)
  rw [hactive] at hinactive
  cases hinactive

theorem LockedOut.refl {row : User} (hrow : row ∈ s.users.rows) (hid : row.id = u)
    (hinactive : row.isActive = false) : LockedOut u s s := by
  refine ⟨⟨row, hrow, hid, hinactive, ?_⟩, ?_, ?_⟩
  · intro row₀ hrow₀ hid₀
    obtain rfl : row₀ = row := s.users.eq_of_key_eq hrow₀ hrow (hid₀.trans hid.symm)
    rfl
  · intro t ht _
    exact ⟨t, ht, .inl rfl⟩
  · intro t ht _
    exact ht

/-- An update of the users that spares the row of the user. -/
theorem LockedOut.users {k : Uuid} {f : User → User} {users : Table User Uuid User.id}
    (h : LockedOut u s₀ s) (hkey : ∀ r, (f r).id = r.id)
    (hupdate : s.users.update k f hkey = some users)
    (hspares : k = u → ∀ r, r.isActive = false →
      (f r).isActive = false ∧ (f r).hashedPassword = r.hashedPassword) :
    LockedOut u s₀ { s with users := users } := by
  obtain ⟨row, hrow, hid, hinactive, hpassword⟩ := h.user
  refine ⟨?_, h.refreshTokens, h.resetTokens⟩
  have hrows := (Table.update_eq_some.mp hupdate).2
  refine ⟨if row.id = k then f row else row, ?_, ?_⟩
  · exact hrows ▸ List.mem_map_of_mem hrow
  · by_cases hk : row.id = k
    · obtain ⟨hstays, hsame⟩ := hspares (hk.symm.trans hid) row hinactive
      rw [if_pos hk, hkey, hsame]
      exact ⟨hid, hstays, hpassword⟩
    · rw [if_neg hk]
      exact ⟨hid, hinactive, hpassword⟩

/-- The step lemma of the statements. -/
theorem LockedOut.apply {foreign : Uuid → Prop} {statement : AccountStatement}
    (h : LockedOut u s₀ s) (hspares : Spares u foreign (.account statement))
    (hforeign : ∀ id, foreign id → ∃ t ∈ s.passwordResetTokens.rows, t.id = id ∧ t.userId ≠ u)
    (happly : statement.apply s = some s') : LockedOut u s₀ s' := by
  cases statement with
  | insertUser user =>
    obtain ⟨_, _, _, users, -, -, -, -, hinsert, rfl⟩ := AccountStore.insertUser_eq_some.mp happly
    obtain ⟨row, hrow, hrest⟩ := h.user
    exact ⟨⟨row, (Table.mem_insert hinsert).mpr (.inl hrow), hrest⟩, h.refreshTokens,
      h.resetTokens⟩
  | updateUser id patch =>
    obtain ⟨_, users, -, hupdate, rfl⟩ := AccountStore.updateUser_eq_some.mp happly
    apply h.users _ hupdate
    intro _ r hr
    exact ⟨hr, rfl⟩
  | updatePassword id hashedPassword =>
    obtain ⟨_, -, happly⟩ := Option.bind_eq_some_iff.mp happly
    obtain ⟨users, hupdate, happly⟩ := Option.bind_eq_some_iff.mp happly
    cases happly
    exact h.users _ hupdate fun heq => absurd heq hspares
  | updateIsActive id isActive =>
    obtain ⟨users, hupdate, rfl⟩ := Option.map_eq_some_iff.mp happly
    apply h.users _ hupdate
    intro heq r _
    exact ⟨hspares heq, rfl⟩
  | insertRefreshToken token =>
    obtain ⟨_, -, -, hs', hrows⟩ := insertRefreshToken_eq_some happly
    rw [hs']
    refine ⟨h.user, ?_, h.resetTokens⟩
    intro t ht huser
    rw [hrows] at ht
    rcases List.mem_append.mp ht with ht | ht
    · exact h.refreshTokens t ht huser
    · cases List.mem_singleton.mp ht
      exact absurd huser hspares
  | updateRefreshToken id now =>
    obtain ⟨-, hs', hrows⟩ := updateRefreshToken_eq_some.mp happly
    rw [hs']
    refine ⟨h.user, ?_, h.resetTokens⟩
    intro t ht huser
    rw [hrows] at ht
    obtain ⟨r, hr, rfl⟩ := List.mem_map.mp ht
    by_cases hid : r.id = id
    · rw [if_pos hid] at huser ⊢
      obtain ⟨t₀, ht₀, rfl | ⟨_, rfl⟩⟩ := h.refreshTokens r hr huser
      · exact ⟨_, ht₀, .inr ⟨now, rfl⟩⟩
      · exact ⟨_, ht₀, .inr ⟨now, rfl⟩⟩
    · rw [if_neg hid] at huser ⊢
      exact h.refreshTokens r hr huser
  | insertPasswordResetToken token =>
    obtain ⟨_, -, hs', hrows⟩ := insertPasswordResetToken_eq_some happly
    rw [hs']
    refine ⟨h.user, h.refreshTokens, ?_⟩
    intro t ht huser
    rw [hrows] at ht
    rcases List.mem_append.mp ht with ht | ht
    · exact h.resetTokens t ht huser
    · cases List.mem_singleton.mp ht
      exact absurd huser hspares
  | updatePasswordResetToken id now =>
    obtain ⟨hs', hrows⟩ := updatePasswordResetToken_eq_some happly
    rw [hs']
    refine ⟨h.user, h.refreshTokens, ?_⟩
    intro t ht huser
    rw [hrows] at ht
    obtain ⟨r, hr, rfl⟩ := List.mem_map.mp ht
    by_cases hid : r.id = id
    · -- the token that is used is the one that is known to be another user's
      obtain ⟨f, hf, hfid, hne⟩ := hforeign id hspares
      rw [if_pos hid] at huser
      obtain rfl : r = f := s.passwordResetTokens.eq_of_key_eq hr hf (hid.trans hfid.symm)
      exact absurd huser hne
    · rw [if_neg hid] at huser ⊢
      exact h.resetTokens r hr huser

end

/-! ## The reset tokens only grow -/

/-- What a statement does to the reset tokens. -/
inductive ResetsChange (statement : AccountStatement) (s s' : AccountStore) : Prop where
  | inserted (t row : PasswordResetToken) (isInsert : statement = .insertPasswordResetToken t)
      (same : row.id = t.id ∧ row.userId = t.userId)
      (rows : s'.passwordResetTokens.rows = s.passwordResetTokens.rows ++ [row])
  | kept (isOther : ∀ t, statement ≠ .insertPasswordResetToken t)
      (rows : ∀ t ∈ s.passwordResetTokens.rows, ∃ t' ∈ s'.passwordResetTokens.rows,
        t'.id = t.id ∧ t'.userId = t.userId)
      (origin : ∀ t' ∈ s'.passwordResetTokens.rows, ∃ t ∈ s.passwordResetTokens.rows,
        t'.id = t.id ∧ t'.userId = t.userId)

section

variable {s s' : AccountStore}

theorem resetsChange_same {statement : AccountStatement}
    (isOther : ∀ t, statement ≠ .insertPasswordResetToken t)
    (h : s'.passwordResetTokens = s.passwordResetTokens) : ResetsChange statement s s' := by
  apply ResetsChange.kept isOther
  · intro t ht
    exact ⟨t, h ▸ ht, rfl, rfl⟩
  · intro t ht
    exact ⟨t, h ▸ ht, rfl, rfl⟩

theorem apply_resetsChange {statement : AccountStatement} (h : statement.apply s = some s') :
    ResetsChange statement s s' := by
  cases statement with
  | insertPasswordResetToken token =>
    obtain ⟨_, -, -, hrows⟩ := insertPasswordResetToken_eq_some h
    exact .inserted token _ rfl (by simp) hrows
  | updatePasswordResetToken id now =>
    obtain ⟨-, hrows⟩ := updatePasswordResetToken_eq_some h
    apply ResetsChange.kept
    · intro t heq
      cases heq
    · intro t ht
      refine ⟨_, hrows ▸ List.mem_map_of_mem ht, ?_⟩
      split <;> exact ⟨rfl, rfl⟩
    · intro t' ht'
      rw [hrows] at ht'
      obtain ⟨t, ht, rfl⟩ := List.mem_map.mp ht'
      refine ⟨t, ht, ?_⟩
      split <;> exact ⟨rfl, rfl⟩
  | insertUser user =>
    obtain ⟨_, _, _, users, -, -, -, -, -, rfl⟩ := AccountStore.insertUser_eq_some.mp h
    exact resetsChange_same (by simp) rfl
  | updateUser id patch =>
    obtain ⟨_, users, -, -, rfl⟩ := AccountStore.updateUser_eq_some.mp h
    exact resetsChange_same (by simp) rfl
  | updatePassword id hashedPassword =>
    exact resetsChange_same (by simp) (by rw [updatePassword_eq_some h])
  | updateIsActive id isActive =>
    exact resetsChange_same (by simp) (by rw [updateIsActive_eq_some h])
  | insertRefreshToken token =>
    obtain ⟨_, -, -, hs', -⟩ := insertRefreshToken_eq_some h
    exact resetsChange_same (by simp) (by rw [hs'])
  | updateRefreshToken id now =>
    obtain ⟨-, hs', -⟩ := updateRefreshToken_eq_some.mp h
    exact resetsChange_same (by simp) (by rw [hs'])

end

theorem apply_owners {w : Statement} {db db' : Db} (h : postgres.apply w db = some db') :
    KeepsOwners db db' := by
  rcases (apply_frame h).accounts with ⟨statement, rfl, hst⟩ | hsame
  · intro t ht
    cases apply_resetsChange hst with
    | inserted _ row _ _ rows => exact ⟨t, rows ▸ List.mem_append_left _ ht, rfl, rfl⟩
    | kept _ rows _ => exact rows t ht
  · intro t ht
    exact ⟨t, hsame ▸ ht, rfl, rfl⟩

theorem KeepsOwners.trans {a b c : Db} (h : KeepsOwners a b) (h' : KeepsOwners b c) :
    KeepsOwners a c := by
  intro t ht
  obtain ⟨t', ht', hid, huser⟩ := h t ht
  obtain ⟨t'', ht'', hid', huser'⟩ := h' t' ht'
  exact ⟨t'', ht'', hid'.trans hid, huser'.trans huser⟩

theorem apply_owners_mono {w : Statement} {a b a' b' : Db} (hab : KeepsOwners a b)
    (ha : postgres.apply w a = some a') (hb : postgres.apply w b = some b') :
    KeepsOwners a' b' := by
  have hkept : KeepsOwners a b' := hab.trans (apply_owners hb)
  rcases (apply_frame ha).accounts with ⟨statement, rfl, hst⟩ | hsame
  · intro t' ht'
    cases apply_resetsChange hst with
    | inserted t row isInsert same rows =>
      rw [rows] at ht'
      rcases List.mem_append.mp ht' with ht' | ht'
      · exact hkept t' ht'
      · cases List.mem_singleton.mp ht'
        obtain ⟨accounts, hst', rfl⟩ := apply_account.mp hb
        cases apply_resetsChange hst' with
        | inserted t₂ row₂ isInsert₂ same₂ rows₂ =>
          cases isInsert.symm.trans isInsert₂
          exact ⟨row₂, rows₂ ▸ List.mem_append_right _ (List.mem_singleton_self _),
            same₂.1.trans same.1.symm, same₂.2.trans same.2.symm⟩
        | kept isOther _ _ => exact absurd isInsert (isOther t)
    | kept _ _ origin =>
      obtain ⟨t, ht, hid, huser⟩ := origin t' ht'
      obtain ⟨t'', ht'', hid', huser'⟩ := hkept t ht
      exact ⟨t'', ht'', hid'.trans hid.symm, huser'.trans huser.symm⟩
  · intro t ht
    rw [hsame] at ht
    exact hkept t ht

theorem growth : Growth postgres KeepsOwners where
  refl _ t ht := ⟨t, ht, rfl, rfl⟩
  trans _ _ _ := KeepsOwners.trans
  grows _ _ _ := apply_owners
  mono _ _ _ _ _ := apply_owners_mono

/-! ## Requests of others -/

/-- The accounts keep the user locked out. -/
def Locked (u : Uuid) (s₀ : AccountStore) (db : Db) : Prop := LockedOut u s₀ db.accounts

section

variable {u : Uuid} {s₀ : AccountStore}

theorem apply_locked {foreign : Uuid → Prop} {w : Statement} {db db' : Db}
    (hspares : Spares u foreign w) (hforeign : ∀ id, foreign id → Foreign u id db)
    (happly : postgres.apply w db = some db') (h : Locked u s₀ db) : Locked u s₀ db' := by
  rcases (apply_frame happly).accounts with ⟨statement, rfl, hst⟩ | hsame
  · exact h.apply hspares hforeign hst
  · rw [Locked, hsame]
    exact h

/-- The request keeps the user locked out, and its answer satisfies `post`. -/
structure Grants (u : Uuid) (s₀ : AccountStore) {α : Type} (p : Service α) (post : α → Prop) :
    Prop where
  safe : Safe postgres KeepsOwners (Locked u s₀) (fun _ => True) p fun value _ => True ∧ post value
  answers : Answers (Locked u s₀) post p

namespace Grants

variable {α β : Type} {post post' : α → Prop}

theorem bind {p : Service α} {f : α → Service β} {post' : β → Prop} (h : Grants u s₀ p post)
    (hf : ∀ value, post value → Grants u s₀ (f value) post') : Grants u s₀ (p >>= f) post' where
  safe := h.safe.bind growth fun value => Safe.fact growth fun hvalue => (hf value hvalue).safe
  answers := h.answers.bind fun value hvalue => (hf value hvalue).answers

theorem mono {p : Service α} (h : Grants u s₀ p post) (himp : ∀ value, post value → post' value) :
    Grants u s₀ p post' where
  safe := h.safe.mono (fun _ hk => hk) fun value _ hvalue => ⟨trivial, himp value hvalue.2⟩
  answers := h.answers.mono himp

theorem done {value : α} (h : post value) : Grants u s₀ (.done value) post where
  safe := Safe.done growth fun _ _ => ⟨trivial, h⟩
  answers := h

/-- A request whose statements spare the user. -/
theorem sends {p : Service α} (h : p.Sends (Spares u fun _ => False))
    (answers : Answers (Locked u s₀) post p) : Grants u s₀ p post where
  safe := Safe.of_answers growth stable_true h answers fun _ _ _ hw happly hlocked =>
    apply_locked hw (fun _ hid => hid.elim) happly hlocked
  answers := answers

theorem found {row : Option α} {error : ServiceError} :
    Grants u s₀ (found row error) fun r => row = some r :=
  sends (found_readsOnly row error).sends answers_found

theorem ensure {c : Prop} [Decidable c] {error : ServiceError} :
    Grants u s₀ (ensure c error) fun _ => c :=
  sends (ensure_readsOnly c error).sends answers_ensure

end Grants

/-- A user that a session reads and finds active. -/
theorem Locked.ne_of_filter {db : Db} (h : Locked u s₀ db) {userId : Uuid} {user : User}
    (huser : (db.accounts.users.find? userId).filter User.isActive = some user) :
    user.id = userId ∧ user.id ≠ u := by
  obtain ⟨hfind, hactive⟩ := Option.filter_eq_some_iff.mp huser
  obtain ⟨hmem, hid⟩ := Table.find?_eq_some.mp hfind
  exact ⟨hid, h.ne_of_active hmem hactive⟩

section

variable {crypto : AuthCrypto} {settings : AuthSettings} {tokens : AccessTokens} {env : AuthEnv}

theorem getCurrentUser_grants (userId : Uuid) :
    Grants u s₀ (getCurrentUser userId) fun user => user.id = userId ∧ user.id ≠ u := by
  apply Grants.sends ((Request.readsOnly_select _).bind fun row => found_readsOnly _ _).sends
  apply (Answers.select _).bind
  intro row hread
  obtain ⟨view, hview, rfl⟩ := hread
  exact answers_found.mono fun user huser => hview.ne_of_filter huser

theorem currentUser_grants (credentials : Option String) :
    Grants u s₀ (currentUser tokens credentials) fun user =>
      tokens.subject credentials = some user.id ∧ user.id ≠ u := by
  apply Grants.found.bind
  intro userId hsubject
  apply (getCurrentUser_grants userId).mono
  intro user huser
  exact ⟨huser.1 ▸ hsubject, huser.2⟩

theorem requireAdmin_grants (credentials : Option String) :
    Grants u s₀ (requireAdmin tokens credentials) fun admin =>
      tokens.subject credentials = some admin.id ∧ admin.id ≠ u := by
  apply (currentUser_grants credentials).bind
  intro user huser
  apply Grants.ensure.bind
  intro _ _
  exact Grants.done huser

theorem scalarOneOrNone_answers {α : Type} (rows : List α) {P : Db → Prop} :
    Answers P (fun r => ∀ row, r = some row → row ∈ rows) (scalarOneOrNone rows) := by
  match rows with
  | [] =>
    intro row hrow
    cases hrow
  | [row] =>
    intro row' hrow
    cases hrow
    exact List.mem_singleton_self row
  | _ :: _ :: _ => trivial

theorem userByEmail_grants (email : String) :
    Grants u s₀ (userByEmail settings email) fun r =>
      ∀ user, r.filter User.isActive = some user → user.id ≠ u := by
  apply Grants.sends (userByEmail_readsOnly email).sends
  apply answers_ensure.bind
  intro _ _
  apply (Answers.select _).bind
  intro rows hread
  obtain ⟨view, hview, rfl⟩ := hread
  apply (scalarOneOrNone_answers _).mono
  intro r hr user huser
  obtain ⟨hsome, hactive⟩ := Option.filter_eq_some_iff.mp huser
  exact hview.ne_of_active (List.mem_of_mem_filter (hr user hsome)) hactive

theorem authenticateUser_grants (email password : String) :
    Grants u s₀ (authenticateUser crypto settings email password) fun r =>
      ∀ user, r = some user → user.id ≠ u := by
  apply (userByEmail_grants email).bind
  intro r hr
  cases hactive : r.filter User.isActive with
  | none =>
    apply Grants.done
    intro user huser
    cases huser
  | some user =>
    apply Grants.found.bind
    intro verified _
    apply Grants.done
    intro user' huser'
    split at huser'
    · cases huser'
      exact hr user hactive
    · cases huser'

theorem issueRefreshToken_grants {user : User} (hne : user.id ≠ u) :
    Grants u s₀ (issueRefreshToken crypto settings env user) fun _ => True := by
  apply Grants.sends _ (Answers.any _)
  apply Request.Sends.bind
  · apply Request.sends_send
    intro _ w hw
    cases List.mem_singleton.mp hw
    exact hne
  · intro _
    exact Request.sends_commit.bind fun _ => trivial

theorem login_grants (email password : String) :
    Grants u s₀ (login crypto settings env email password) fun answer => answer.1.id ≠ u := by
  apply (authenticateUser_grants email password).bind
  intro r hr
  apply Grants.found.bind
  intro user huser
  apply (issueRefreshToken_grants (hr user huser)).bind
  intro rawToken _
  exact Grants.done (hr user huser)

theorem tokenByHash_grants (rawToken : String) :
    Grants u s₀ (tokenByHash crypto rawToken) fun _ => True :=
  Grants.sends (tokenByHash_readsOnly rawToken).sends (Answers.any _)

/-- A session revokes a token whosoever it is, and goes on for an active user. -/
theorem redeemRefreshToken_grants (rawToken : String) :
    Grants u s₀ (redeemRefreshToken crypto env rawToken) fun r =>
      ∀ user, r = some user → user.id ≠ u := by
  apply (tokenByHash_grants rawToken).bind
  intro token _
  cases redeemable (env.now 0) token with
  | none =>
    apply Grants.done
    intro user huser
    cases huser
  | some token =>
    apply Grants.sends
    · apply (Request.sends_select _).bind
      intro row
      apply (Request.sends_send fun _ => List.forall_mem_singleton.mpr trivial).bind
      intro _
      exact Request.sends_commit.bind fun _ => trivial
    · apply (Answers.select _).bind
      intro row hread
      obtain ⟨view, hview, rfl⟩ := hread
      intro user huser
      exact (hview.ne_of_filter huser).2

theorem refresh_grants (env' : AuthEnv) (rawToken : String) :
    Grants u s₀ (refresh crypto settings env env' rawToken) fun answer => answer.1.id ≠ u := by
  apply (redeemRefreshToken_grants rawToken).bind
  intro r hr
  apply Grants.found.bind
  intro user huser
  apply (issueRefreshToken_grants (hr user huser)).bind
  intro rawToken _
  exact Grants.done (hr user huser)

theorem revokeRefreshToken_grants (rawToken : String) :
    Grants u s₀ (revokeRefreshToken crypto env rawToken) fun _ => True := by
  apply (tokenByHash_grants rawToken).bind
  intro token _
  apply Grants.sends _ (Answers.any _)
  split
  · trivial
  · apply (Request.sends_send fun _ => List.forall_mem_singleton.mpr trivial).bind
    intro _
    exact Request.sends_commit

theorem revokeStatements_spares {foreign : Uuid → Prop} {now : CalendarTime.Instant}
    {revoked : List RefreshToken} {w : Statement} (hw : w ∈ revokeStatements now revoked) :
    Spares u foreign w := by
  obtain ⟨t, -, rfl⟩ := List.mem_map.mp hw
  trivial

theorem changePassword_grants {user : User} (hne : user.id ≠ u)
    (currentPassword newPassword : String) :
    Grants u s₀ (changePassword crypto env user currentPassword newPassword) fun _ => True := by
  apply Grants.sends _ (Answers.any _)
  apply (found_readsOnly _ _).sends.bind
  intro verified
  apply (ensure_readsOnly _ _).sends.bind
  intro _
  apply (found_readsOnly _ _).sends.bind
  intro hashedPassword
  apply (Request.sends_select _).bind
  intro active
  apply Request.Sends.bind
  · apply Request.sends_send
    intro _ w hw
    rcases List.mem_cons.mp hw with rfl | hw
    · exact hne
    · exact revokeStatements_spares hw
  · intro _
    exact Request.sends_commit

theorem createPasswordResetToken_grants (email : String) :
    Grants u s₀ (createPasswordResetToken crypto settings env email) fun _ => True := by
  apply (userByEmail_grants email).bind
  intro r hr
  apply Grants.sends _ (Answers.any _)
  cases hactive : r.filter User.isActive with
  | none => trivial
  | some user =>
    apply Request.Sends.bind
    · apply Request.sends_send
      intro _ w hw
      cases List.mem_singleton.mp hw
      exact hr user hactive
    · intro _
      exact Request.sends_commit.bind fun _ => trivial

/-! ### Resetting a password -/

/-- The reset token is in the table, with its user. -/
def Owned (t : PasswordResetToken) (db : Db) : Prop :=
  ∃ t' ∈ db.accounts.passwordResetTokens.rows, t'.id = t.id ∧ t'.userId = t.userId

theorem stable_owned (t : PasswordResetToken) : Stable KeepsOwners (Owned t) := by
  intro a b hab howned
  obtain ⟨t', ht', hid, huser⟩ := howned
  obtain ⟨t'', ht'', hid', huser'⟩ := hab t' ht'
  exact ⟨t'', ht'', hid'.trans hid, huser'.trans huser⟩

theorem resetTokenByHash_safe (rawToken : String) :
    Safe postgres KeepsOwners (Locked u s₀) (fun _ => True) (resetTokenByHash crypto rawToken)
      fun r db => ∀ t, r = some t → Owned t db := by
  apply (Safe.select growth _).bind growth
  intro rows
  have hknown : Stable KeepsOwners fun db => ∀ t ∈ rows, Owned t db :=
    fun a b hab hk t ht => stable_owned t a b hab (hk t ht)
  have hanswer : Safe postgres KeepsOwners (Locked u s₀) (fun db => ∀ t ∈ rows, Owned t db)
      (scalarOneOrNone rows) fun r db => (∀ t ∈ rows, Owned t db) ∧ ∀ t, r = some t → t ∈ rows :=
    Safe.of_answers (Q := fun _ => False) growth hknown (scalarOneOrNone_readsOnly rows).sends
      (scalarOneOrNone_answers rows) fun _ _ _ hw => hw.elim
  apply hanswer.mono
  · intro mid hread t ht
    obtain ⟨view, -, -, hgrows, rfl⟩ := hread
    exact hgrows t (List.mem_of_mem_filter ht)
  · intro r db hknown t ht
    exact hknown.1 t (hknown.2 t ht)

theorem consumeResetToken_safe (token : PasswordResetToken) (newPassword : String) :
    Safe postgres KeepsOwners (Locked u s₀) (Owned token)
      (consumeResetToken crypto env token newPassword) fun _ _ => True := by
  have hread : Safe postgres KeepsOwners (Locked u s₀) (Owned token)
      (Request.select fun db => db.accounts.users.find? token.userId) fun row db =>
        Owned token db ∧ ∀ user, row.filter User.isActive = some user →
          user.id = token.userId ∧ user.id ≠ u := by
    apply (Safe.select growth _).mono (fun _ hk => hk)
    intro row mid hread
    obtain ⟨view, hview, howned, hgrows, rfl⟩ := hread
    exact ⟨stable_owned token view mid hgrows howned, fun user => hview.ne_of_filter⟩
  apply hread.bind growth
  intro row
  apply Safe.fact growth
  intro hrow
  cases hactive : row.filter User.isActive with
  | none => exact Safe.done growth fun _ _ => trivial
  | some user =>
    obtain ⟨huser, hne⟩ := hrow user hactive
    have hknown := stable_owned token
    apply (Safe.of_readsOnly growth hknown (found_readsOnly _ _)).bind growth
    intro hashedPassword
    apply (Safe.of_readsOnly growth hknown (Request.readsOnly_select _)).bind growth
    intro active
    apply (Safe.send growth hknown _).bind growth
    · intro _
      apply (Safe.commit growth hknown).bind growth
      intro _
      exact Safe.done growth fun _ _ => trivial
    · intro mid after _ howned hlocked happly
      have hspares : ∀ w ∈ .account (.updatePassword user.id hashedPassword) ::
          .account (.updatePasswordResetToken token.id (env.now 0)) ::
            revokeStatements (env.now 1) active, Spares u (fun id => id = token.id) w := by
        intro w hw
        rcases List.mem_cons.mp hw with rfl | hw
        · exact hne
        · rcases List.mem_cons.mp hw with rfl | hw
          · exact rfl
          · exact revokeStatements_spares hw
      -- the token stays its user's while the statements are applied
      have hboth := postgres.applyAll_preserves (P := fun db => Owned token db ∧ Locked u s₀ db)
        (fun w hw db db' hstep h => ⟨stable_owned token db db' (apply_owners hstep) h.1,
          apply_locked (hspares w hw) (fun id hid => ?_) hstep h.2⟩) happly ⟨howned, hlocked⟩
      · exact hboth.2
      · obtain ⟨t, ht, htid, htuser⟩ := h.1
        exact ⟨t, ht, htid.trans hid.symm, fun heq => hne (huser.trans (htuser.symm.trans heq))⟩

theorem resetPassword_grants (rawToken newPassword : String) :
    Grants u s₀ (resetPassword crypto env rawToken newPassword) fun _ => True where
  safe := by
    apply (resetTokenByHash_safe rawToken).bind growth
    intro r
    cases husable : usable (env.now 0) r with
    | none => exact Safe.done growth fun _ _ => ⟨trivial, trivial⟩
    | some token =>
      have htoken := (Option.filter_eq_some_iff.mp husable).1
      exact (consumeResetToken_safe token newPassword).mono (fun db hk => hk token htoken)
        fun _ _ _ => ⟨trivial, trivial⟩
  answers := Answers.any _

/-! ### Administration -/

theorem setUserActive_grants {userId : Uuid} {isActive : Bool}
    (h : userId = u → isActive = false) :
    Grants u s₀ (AuthService.setUserActive userId isActive) fun _ => True := by
  have hread : Grants u s₀ (Request.select fun db : Db => db.accounts.users.find? userId)
      fun row => ∀ user, row = some user → user.id = userId := by
    apply Grants.sends (Request.sends_select _)
    intro view _ user huser
    exact (Table.find?_eq_some.mp huser).2
  apply hread.bind
  intro row hrow
  apply Grants.found.bind
  intro user huser
  apply Grants.sends _ (Answers.any _)
  apply Request.Sends.bind
  · apply Request.sends_send
    intro _ w hw
    split at hw
    · cases hw
    · cases List.mem_singleton.mp hw
      intro heq
      exact h ((hrow user huser).symm.trans heq)
  · intro _
    exact Request.sends_commit.bind fun _ => trivial

theorem administers_spares {w : Statement} (h : Administers w) :
    Spares u (fun _ => False) w := by
  cases w with
  | account statement => cases statement <;> first | exact h.elim | trivial
  | _ => trivial

theorem keepsAccounts_spares {w : Statement} (h : KeepsAccounts w) :
    Spares u (fun _ => False) w := by
  cases w with
  | account statement => exact absurd rfl (h statement)
  | _ => trivial

/-- What a request is granted, it is granted to another user. -/
theorem request_grants (r : AccountRequest)
    (hothers : ∀ credentials, r = .setUserActive credentials u true →
      tokens.subject credentials = some u) :
    Grants u s₀ (r.request crypto settings tokens) fun answer => answer ≠ some u := by
  have other : ∀ {user : User}, user.id ≠ u → some user.id ≠ some u := by
    intro user hne heq
    exact hne (Option.some.inj heq)
  have nobody : (none : Option Uuid) ≠ some u := by simp
  cases r with
  | login env email password =>
    apply (login_grants email password).bind
    intro answer hanswer
    exact Grants.done (other hanswer)
  | refresh env env' rawToken =>
    apply (refresh_grants env' rawToken).bind
    intro answer hanswer
    exact Grants.done (other hanswer)
  | logout env rawToken =>
    apply (revokeRefreshToken_grants rawToken).bind
    intro _ _
    exact Grants.done nobody
  | changeOwnPassword env credentials currentPassword newPassword =>
    apply (currentUser_grants credentials).bind
    intro user huser
    apply (changePassword_grants huser.2 currentPassword newPassword).bind
    intro _ _
    exact Grants.done (other huser.2)
  | forgotPassword env email =>
    apply (createPasswordResetToken_grants email).bind
    intro _ _
    exact Grants.done nobody
  | resetOwnPassword env rawToken newPassword =>
    apply (resetPassword_grants rawToken newPassword).bind
    intro _ _
    apply Grants.ensure.bind
    intro _ _
    exact Grants.done nobody
  | setUserActive credentials userId isActive =>
    apply (requireAdmin_grants credentials).bind
    intro admin hadmin
    have hspares : userId = u → isActive = false := by
      -- an administrator who is locked out is not granted the request
      rintro rfl
      cases isActive with
      | false => rfl
      | true =>
        have hself := hadmin.1.symm.trans (hothers credentials rfl)
        exact absurd (Option.some.inj hself) hadmin.2
    apply (setUserActive_grants hspares).bind
    intro _ _
    exact Grants.done (other hadmin.2)
  | users credentials r =>
    apply (requireAdmin_grants credentials).bind
    intro admin hadmin
    apply (Grants.sends (r.administers.mono fun _ => administers_spares) (Answers.any _)).bind
    intro _ _
    exact Grants.done (other hadmin.2)
  | authenticated credentials body keeps =>
    apply (currentUser_grants credentials).bind
    intro user huser
    apply (Grants.sends ((keeps user).mono fun _ => keepsAccounts_spares) (Answers.any _)).bind
    intro _ _
    exact Grants.done (other huser.2)
  | administrative credentials body keeps =>
    apply (requireAdmin_grants credentials).bind
    intro admin hadmin
    apply (Grants.sends ((keeps admin).mono fun _ => keepsAccounts_spares) (Answers.any _)).bind
    intro _ _
    exact Grants.done (other hadmin.2)

end

end

/-! ## Interleavings -/

/-- In every interleaving that starts after the deactivation of a user, as long as nobody else
activates the user again: the account stays inactive with its password, it gets no token, its reset
tokens stay unused, and no session is granted a request in its name. -/
theorem deactivated_account_locked_out {crypto : AuthCrypto} {settings : AuthSettings}
    {tokens : AccessTokens} {db : Db} {row : User} (hrow : row ∈ db.accounts.users.rows)
    (hinactive : row.isActive = false) {n : ℕ} (rs : List AccountRequest)
    (hothers : ∀ credentials, .setUserActive credentials row.id true ∈ rs →
      tokens.subject credentials = some row.id)
    {σ : Server Db Statement ServiceError (Option Uuid)}
    (run : Server.Reaches postgres (fun _ _ => True)
      (start db n (rs.map (·.request crypto settings tokens))) σ) :
    LockedOut row.id db.accounts σ.committed.accounts ∧
      ∀ (i : ℕ) (pending : List Statement) (answer : Option Uuid),
        σ.sessions[i]? = some ⟨pending, .done answer⟩ → answer ≠ some row.id := by
  have hlocked : Locked row.id db.accounts db := LockedOut.refl hrow rfl hinactive
  have hgrants : ∀ r ∈ rs, Grants row.id db.accounts (r.request crypto settings tokens)
      fun answer => answer ≠ some row.id := by
    intro r hr
    apply request_grants r
    rintro credentials rfl
    exact hothers credentials hr
  have hsafe : ∀ p ∈ rs.map (·.request crypto settings tokens),
      Safe postgres KeepsOwners (Locked row.id db.accounts) (fun _ => True) p fun _ _ => True := by
    intro p hp
    obtain ⟨r, hr, rfl⟩ := List.mem_map.mp hp
    exact (hgrants r hr).safe.mono (fun _ hk => hk) fun _ _ _ => trivial
  refine ⟨Server.Reaches.safe growth hlocked hsafe run, ?_⟩
  intro i pending answer hdone
  apply Server.Reaches.answers growth (Q := fun _ answer => answer ≠ some row.id) hlocked hsafe _
    run hdone
  intro j p hp
  rw [List.getElem?_map, Option.map_eq_some_iff] at hp
  obtain ⟨r, hr, rfl⟩ := hp
  exact (hgrants r (List.mem_of_getElem? hr)).answers

/-- Every access token names the one user there is. -/
def sampleTokens : AccessTokens := ⟨fun _ => some (some "1"), fun _ => some 1⟩

def sampleInactive : User := { sampleUser with isActive := false, isAdmin := true }

/-- A deactivated administrator activates the account again, and asks for a page. -/
def sampleAttempts : List AccountRequest :=
  [.setUserActive (some "token") 1 true,
    .authenticated (some "token") (fun _ => return ()) fun _ => trivial]

theorem deactivated_account_locked_out_sample :
    ∃ σ, Server.run postgres (fun _ _ => true)
        (start { emptyDb with accounts := { AccountStore.empty with
            users := Table.singleton sampleInactive } } 1
          (sampleAttempts.map (·.request sampleAuthCrypto sampleSettings sampleTokens)))
        [.run 0, .run 1] = some σ ∧
      LockedOut 1 { AccountStore.empty with users := Table.singleton sampleInactive }
        σ.committed.accounts := by
  have hrun : (Server.run postgres (fun _ _ => true)
      (start { emptyDb with accounts := { AccountStore.empty with
          users := Table.singleton sampleInactive } } 1
        (sampleAttempts.map (·.request sampleAuthCrypto sampleSettings sampleTokens)))
      [.run 0, .run 1]).isSome = true := by
    decide +kernel
  have hself : ∀ credentials, AccountRequest.setUserActive credentials 1 true ∈ sampleAttempts →
      sampleTokens.subject credentials = some 1 := by
    intro credentials h
    rcases List.mem_cons.mp h with h | h
    · cases h
      rfl
    · cases List.mem_singleton.mp h
  obtain ⟨σ, hσ⟩ := Option.isSome_iff_exists.mp hrun
  exact ⟨σ, hσ, (deactivated_account_locked_out (List.mem_singleton_self sampleInactive) rfl
    sampleAttempts hself (Server.Reaches.of_run (fun _ _ _ => trivial) .refl hσ)).1⟩

end NexusEngine.AccountLockout
