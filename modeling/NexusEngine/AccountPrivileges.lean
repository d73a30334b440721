import NexusEngine.AccountLockout
import NexusEngine.RelatedLists

/-!
# Privileges of accounts

Only an administrator makes administrators. As long as no session presents the credentials of an
active one, no interleaving of requests answers an administrator's request, and every user stays as
before up to the password: no account is added, activated or given privileges.
-/

namespace NexusEngine.AccountPrivileges

open TransactionalRequests ReadCommittedSessions StoredColumns KeyedTables AccountTables Database
  AuthService AuthLifecycle AuditedOperations QuietRequests SafeServices AccountLockout

/-! ## The users -/

/-- The user of before, up to the password. -/
def SameUser (user₀ user : User) : Prop :=
  ∃ hashedPassword, user = { user₀ with hashedPassword := hashedPassword }

/-- The users are those of before, up to their passwords. -/
def KeepsUsers (db₀ db : Db) : Prop :=
  List.Forall₂ SameUser db₀.accounts.users.rows db.accounts.users.rows

theorem SameUser.refl (user : User) : SameUser user user := ⟨user.hashedPassword, rfl⟩

theorem keepsUsers_refl (db : Db) : KeepsUsers db db :=
  List.forall₂_same.mpr fun user _ => SameUser.refl user

/-- What the owner of an account can do to it without an administrator. -/
def OwnAccount : Statement → Prop
  | .account (.updatePassword _ _) => True
  | .account (.insertRefreshToken _) => True
  | .account (.updateRefreshToken _ _) => True
  | .account (.insertPasswordResetToken _) => True
  | .account (.updatePasswordResetToken _ _) => True
  | .account _ => False
  | _ => True

/-- The step lemma of the statements. -/
theorem ownAccount_keeps {db₀ db db' : Db} {w : Statement} (hw : OwnAccount w)
    (happly : postgres.apply w db = some db') (h : KeepsUsers db₀ db) : KeepsUsers db₀ db' := by
  rcases (apply_frame happly).accounts with ⟨statement, rfl, hst⟩ | hsame
  · cases statement with
    | insertUser user => cases hw
    | updateUser id patch => cases hw
    | updateIsActive id isActive => cases hw
    | updatePassword id hashedPassword =>
      obtain ⟨_, -, hst⟩ := Option.bind_eq_some_iff.mp hst
      obtain ⟨users, hupdate, hst⟩ := Option.bind_eq_some_iff.mp hst
      rw [KeepsUsers, ← Option.some.inj hst, (Table.update_eq_some.mp hupdate).2,
        List.forall₂_map_right_iff]
      apply h.imp
      intro user₀ user huser
      obtain ⟨hash, rfl⟩ := huser
      split
      · exact ⟨_, rfl⟩
      · exact ⟨_, rfl⟩
    | insertRefreshToken token =>
      obtain ⟨_, -, -, hs', -⟩ := insertRefreshToken_eq_some hst
      rw [KeepsUsers, hs']
      exact h
    | updateRefreshToken id now =>
      obtain ⟨-, hs', -⟩ := updateRefreshToken_eq_some.mp hst
      rw [KeepsUsers, hs']
      exact h
    | insertPasswordResetToken token =>
      obtain ⟨_, -, hs', -⟩ := insertPasswordResetToken_eq_some hst
      rw [KeepsUsers, hs']
      exact h
    | updatePasswordResetToken id now =>
      obtain ⟨hs', -⟩ := updatePasswordResetToken_eq_some hst
      rw [KeepsUsers, hs']
      exact h
  · rw [KeepsUsers, hsame]
    exact h

theorem keepsAccounts_own {w : Statement} (h : KeepsAccounts w) : OwnAccount w := by
  cases w with
  | account statement => exact absurd rfl (h statement)
  | _ => trivial

/-! ## Requests to the own account -/

section

variable {crypto : AuthCrypto} {settings : AuthSettings} {tokens : AccessTokens} {env : AuthEnv}

theorem currentUser_readsOnly (credentials : Option String) :
    (currentUser tokens credentials).ReadsOnly := by
  apply (found_readsOnly _ _).bind
  intro userId
  exact (Request.readsOnly_select _).bind fun row => found_readsOnly _ _

theorem requireAdmin_readsOnly (credentials : Option String) :
    (requireAdmin tokens credentials).ReadsOnly := by
  apply (currentUser_readsOnly credentials).bind
  intro user
  exact (ensure_readsOnly _ _).bind fun _ => trivial

/-- A transaction of one statement. -/
theorem single_own {α : Type} {w : ℕ → Statement} {p : Service α} (hw : ∀ n, OwnAccount (w n))
    (h : p.Sends OwnAccount) :
    (Request.send (fun n => [w n]) >>= fun _ => p).Sends OwnAccount :=
  (Request.sends_send fun n => List.forall_mem_singleton.mpr (hw n)).bind fun _ => h

theorem revokeStatements_own {now : CalendarTime.Instant} {revoked : List RefreshToken} :
    ∀ w ∈ revokeStatements now revoked, OwnAccount w := by
  intro w hw
  obtain ⟨t, -, rfl⟩ := List.mem_map.mp hw
  trivial

theorem issueRefreshToken_own (user : User) :
    (issueRefreshToken crypto settings env user).Sends OwnAccount :=
  single_own (fun _ => trivial) (Request.sends_commit.bind fun _ => trivial)

theorem login_own (email password : String) :
    (login crypto settings env email password).Sends OwnAccount := by
  apply (authenticateUser_readsOnly _ _).sends.bind
  intro user
  apply (found_readsOnly _ _).sends.bind
  intro user
  exact (issueRefreshToken_own user).bind fun _ => trivial

theorem refresh_own (env' : AuthEnv) (rawToken : String) :
    (refresh crypto settings env env' rawToken).Sends OwnAccount := by
  apply Request.Sends.bind
  · apply (tokenByHash_readsOnly _).sends.bind
    intro token
    cases redeemable (env.now 0) token with
    | none => trivial
    | some token =>
      apply (Request.sends_select _).bind
      intro user
      exact single_own (fun _ => trivial) (Request.sends_commit.bind fun _ => trivial)
  · intro user
    apply (found_readsOnly _ _).sends.bind
    intro user
    exact (issueRefreshToken_own user).bind fun _ => trivial

theorem revokeRefreshToken_own (rawToken : String) :
    (revokeRefreshToken crypto env rawToken).Sends OwnAccount := by
  apply (tokenByHash_readsOnly _).sends.bind
  intro token
  split
  · trivial
  · exact single_own (fun _ => trivial) Request.sends_commit

theorem changePassword_own (user : User) (currentPassword newPassword : String) :
    (changePassword crypto env user currentPassword newPassword).Sends OwnAccount := by
  apply (found_readsOnly _ _).sends.bind
  intro verified
  apply (ensure_readsOnly _ _).sends.bind
  intro _
  apply (found_readsOnly _ _).sends.bind
  intro hashedPassword
  apply (Request.sends_select _).bind
  intro active
  apply Request.Sends.bind
  · apply Request.sends_send
    intro _
    exact List.forall_mem_cons.mpr ⟨trivial, revokeStatements_own⟩
  · intro _
    exact Request.sends_commit

theorem createPasswordResetToken_own (email : String) :
    (createPasswordResetToken crypto settings env email).Sends OwnAccount := by
  apply (userByEmail_readsOnly _).sends.bind
  intro row
  cases row.filter User.isActive with
  | none => trivial
  | some user => exact single_own (fun _ => trivial) (Request.sends_commit.bind fun _ => trivial)

theorem resetPassword_own (rawToken newPassword : String) :
    (resetPassword crypto env rawToken newPassword).Sends OwnAccount := by
  apply Request.Sends.bind
  · exact (Request.sends_select _).bind fun rows => (scalarOneOrNone_readsOnly rows).sends
  · intro token
    cases usable (env.now 0) token with
    | none => trivial
    | some token =>
      apply (Request.sends_select _).bind
      intro row
      cases row.filter User.isActive with
      | none => trivial
      | some user =>
        apply (found_readsOnly _ _).sends.bind
        intro hashedPassword
        apply (Request.sends_select _).bind
        intro active
        apply Request.Sends.bind
        · apply Request.sends_send
          intro _
          exact List.forall_mem_cons.mpr ⟨trivial,
            List.forall_mem_cons.mpr ⟨trivial, revokeStatements_own⟩⟩
        · intro _
          exact Request.sends_commit.bind fun _ => trivial

/-! ## Requests of administrators -/

/-- The credentials that a request presents to act as an administrator. -/
def administers : AccountRequest → Option (Option String)
  | .setUserActive credentials _ _ => some credentials
  | .users credentials _ => some credentials
  | .administrative credentials _ _ => some credentials
  | _ => none

/-- The credentials are not those of an administrator. -/
def Ordinary (tokens : AccessTokens) (users : List User) (credentials : Option String) : Prop :=
  ∀ user ∈ users, tokens.subject credentials = some user.id → user.isActive = true →
    user.isAdmin = false

variable {db₀ : Db}

/-- The user that a session finds was there before, with the same privileges. -/
theorem currentUser_known (credentials : Option String) :
    Answers (KeepsUsers db₀) (fun user => ∃ user₀ ∈ db₀.accounts.users.rows,
      tokens.subject credentials = some user₀.id ∧ user₀.isActive = true ∧
        user.isAdmin = user₀.isAdmin) (currentUser tokens credentials) := by
  apply answers_found.bind
  intro userId hsubject
  apply (Answers.select _).bind
  intro row hread
  obtain ⟨view, hview, rfl⟩ := hread
  apply answers_found.mono
  intro user huser
  obtain ⟨hfind, hactive⟩ := Option.filter_eq_some_iff.mp huser
  obtain ⟨hmem, hid⟩ := Table.find?_eq_some.mp hfind
  obtain ⟨user₀, huser₀, hash, rfl⟩ := RelatedLists.forall₂_mem_right hview hmem
  exact ⟨user₀, huser₀, hid ▸ hsubject, hactive, rfl⟩

/-- No view of the users lets such credentials pass. -/
theorem requireAdmin_refuses {credentials : Option String}
    (h : Ordinary tokens db₀.accounts.users.rows credentials) :
    Answers (KeepsUsers db₀) (fun _ => False) (requireAdmin tokens credentials) := by
  apply (currentUser_known credentials).bind
  intro user hknown
  obtain ⟨user₀, huser₀, hsubject, hactive, hadmin⟩ := hknown
  apply answers_ensure.bind
  intro _ hgranted
  rw [hadmin, h user₀ huser₀ hsubject hactive] at hgranted
  cases hgranted

/-- What follows a request that is always refused does not matter. -/
theorem refused {α β : Type} {P : Db → Prop} {p : Service α} {f : α → Service β}
    (hreads : p.ReadsOnly) (h : Answers P (fun _ => False) p) :
    Safe postgres (fun _ _ => True) P (fun _ => True) (p >>= f) fun _ _ => True := by
  have hsafe : Safe postgres (fun _ _ => True) P (fun _ => True) p fun _ _ => True ∧ False :=
    Safe.of_answers (Q := fun _ => False) growth_true stable_true hreads.sends h
      fun _ _ _ hw => hw.elim
  apply hsafe.bind growth_true
  intro value
  apply Safe.fact growth_true
  intro hfalse
  exact hfalse.elim

theorem own_safe {α : Type} {p : Service α} (h : p.Sends OwnAccount) :
    Safe postgres (fun _ _ => True) (KeepsUsers db₀) (fun _ => True) p fun _ _ => True :=
  Safe.of_sends growth_true stable_true h fun _ _ _ => ownAccount_keeps

theorem request_keeps (r : AccountRequest)
    (h : ∀ credentials, administers r = some credentials →
      Ordinary tokens db₀.accounts.users.rows credentials) :
    Safe postgres (fun _ _ => True) (KeepsUsers db₀) (fun _ => True)
      (r.request crypto settings tokens) fun _ _ => True := by
  cases r with
  | login env email password => exact own_safe ((login_own _ _).bind fun _ => trivial)
  | refresh env env' rawToken => exact own_safe ((refresh_own _ _).bind fun _ => trivial)
  | logout env rawToken => exact own_safe ((revokeRefreshToken_own _).bind fun _ => trivial)
  | changeOwnPassword env credentials currentPassword newPassword =>
    apply own_safe
    apply (currentUser_readsOnly credentials).sends.bind
    intro user
    exact (changePassword_own user _ _).bind fun _ => trivial
  | forgotPassword env email =>
    exact own_safe ((createPasswordResetToken_own _).bind fun _ => trivial)
  | resetOwnPassword env rawToken newPassword =>
    apply own_safe
    apply (resetPassword_own _ _).bind
    intro done
    exact (ensure_readsOnly _ _).sends.bind fun _ => trivial
  | authenticated credentials body keeps =>
    apply own_safe
    apply (currentUser_readsOnly credentials).sends.bind
    intro user
    exact ((keeps user).mono fun _ => keepsAccounts_own).bind fun _ => trivial
  | setUserActive credentials userId isActive =>
    exact refused (requireAdmin_readsOnly _) (requireAdmin_refuses (h _ rfl))
  | users credentials r =>
    exact refused (requireAdmin_readsOnly _) (requireAdmin_refuses (h _ rfl))
  | administrative credentials body keeps =>
    exact refused (requireAdmin_readsOnly _) (requireAdmin_refuses (h _ rfl))

/-- A request that presents such credentials is not answered. -/
theorem request_refused {r : AccountRequest} {credentials : Option String}
    (hr : administers r = some credentials)
    (h : Ordinary tokens db₀.accounts.users.rows credentials) :
    Answers (KeepsUsers db₀) (fun _ => False) (r.request crypto settings tokens) := by
  have hrefuses := requireAdmin_refuses h
  cases r with
  | setUserActive credentials' userId isActive =>
    cases hr
    exact hrefuses.bind fun _ hfalse => hfalse.elim
  | users credentials' r =>
    cases hr
    exact hrefuses.bind fun _ hfalse => hfalse.elim
  | administrative credentials' body keeps =>
    cases hr
    exact hrefuses.bind fun _ hfalse => hfalse.elim
  | _ => cases hr

end

/-! ## Interleavings -/

/-- In every interleaving of requests none of which presents the credentials of an active
administrator where those are asked for: no such request is answered, and the users stay as they
were, up to their passwords. -/
theorem privileges_confined {crypto : AuthCrypto} {settings : AuthSettings} {tokens : AccessTokens}
    {db : Db} {n : ℕ} (rs : List AccountRequest)
    (hordinary : ∀ r ∈ rs, ∀ credentials, administers r = some credentials →
      Ordinary tokens db.accounts.users.rows credentials)
    {σ : Server Db Statement ServiceError (Option Uuid)}
    (run : Server.Reaches postgres (fun _ _ => True)
      (start db n (rs.map (·.request crypto settings tokens))) σ) :
    KeepsUsers db σ.committed ∧
      ∀ (i : ℕ) (r : AccountRequest) (credentials : Option String), rs[i]? = some r →
        administers r = some credentials → ∀ (pending : List Statement) (answer : Option Uuid),
          σ.sessions[i]? ≠ some ⟨pending, .done answer⟩ := by
  have hsafe : ∀ p ∈ rs.map (·.request crypto settings tokens),
      Safe postgres (fun _ _ => True) (KeepsUsers db) (fun _ => True) p fun _ _ => True := by
    intro p hp
    obtain ⟨r, hr, rfl⟩ := List.mem_map.mp hp
    exact request_keeps r (hordinary r hr)
  constructor
  · exact Server.Reaches.safe growth_true (keepsUsers_refl db) hsafe run
  · intro i r credentials hr hadministers pending answer hdone
    have hrefused : ∀ j p, (rs.map (·.request crypto settings tokens))[j]? = some p →
        Answers (KeepsUsers db) (fun _ => j ≠ i) p := by
      intro j p hp
      rw [List.getElem?_map, Option.map_eq_some_iff] at hp
      obtain ⟨r', hr', rfl⟩ := hp
      by_cases hj : j = i
      · obtain rfl : r' = r := Option.some.inj ((hj ▸ hr').symm.trans hr)
        have hordinary' := hordinary r' (List.mem_of_getElem? hr) credentials hadministers
        exact (request_refused hadministers hordinary').mono fun _ hfalse => hfalse.elim
      · exact (Answers.any _).mono fun _ _ => hj
    exact Server.Reaches.answers growth_true (Q := fun j _ => j ≠ i) (keepsUsers_refl db) hsafe
      hrefused run hdone rfl

/-- A user asks to deactivate an account, and for a page. -/
def sampleIntrusion : List AccountRequest :=
  [.setUserActive (some "token") 1 false,
    .authenticated (some "token") (fun _ => return ()) fun _ => trivial]

def sampleAccounts : Db :=
  { emptyDb with accounts := { AccountStore.empty with users := Table.singleton sampleUser } }

theorem privileges_confined_sample : ∃ σ,
    (start sampleAccounts 1 (sampleIntrusion.map
      (·.request sampleAuthCrypto sampleSettings sampleTokens))).run postgres (fun _ _ => true)
        [.run 0, .run 1] = some σ ∧ KeepsUsers sampleAccounts σ.committed := by
  have hordinary : ∀ r ∈ sampleIntrusion, ∀ credentials, administers r = some credentials →
      Ordinary sampleTokens sampleAccounts.accounts.users.rows credentials := by
    intro r _ credentials _ user huser _ _
    rw [List.mem_singleton.mp huser]
    rfl
  have hrun : ∃ σ, (start sampleAccounts 1 (sampleIntrusion.map
      (·.request sampleAuthCrypto sampleSettings sampleTokens))).run postgres (fun _ _ => true)
        [.run 0, .run 1] = some σ := ⟨_, rfl⟩
  obtain ⟨σ, hσ⟩ := hrun
  exact ⟨σ, hσ, (privileges_confined sampleIntrusion hordinary
    (Server.Reaches.of_run (fun _ _ _ => trivial) .refl hσ)).1⟩

end NexusEngine.AccountPrivileges
