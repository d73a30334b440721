import NexusEngine.RbacLifecycle

/-!
# Logging in with a created account

An account is stored under its email as it was given, and a login looks for the lower case of the
email. The account is found by its own email where that is its own lower case, and never
otherwise.
-/

namespace NexusEngine.AccountLogins

open TransactionalRequests TextEncodings StoredColumns KeyedTables AccountTables RbacTables
  Database AuthService AuthLifecycle AuditedOperations QuietRequests RbacService RbacLifecycle

/-! ## Requests -/

inductive UserRequest where
  | createUser (env : RbacEnv) (payload : RbacUserCreate)
  | updateUser (env : RbacEnv) (userId : Uuid) (payload : RbacUserUpdate)

def UserRequest.request (crypto : AuthCrypto) : UserRequest → Service RbacResponse
  | createUser env payload => (RbacRequest.createUser env payload).request crypto
  | updateUser env userId payload => (RbacRequest.updateUser env userId payload).request crypto

def execAll (crypto : AuthCrypto) (s : Store Db) (rs : List UserRequest) : Store Db :=
  s.execAll postgres (rs.map (·.request crypto))

/-- The constraint on the emails of users. -/
def UniqueEmails (db : Db) : Prop := (db.accounts.users.rows.map User.email).Nodup

/-- What a login with the email looks for. -/
def loginKey (settings : AuthSettings) (email : String) : String :=
  String.ofList (settings.tables.lower (chars email))

def loginAnswer (crypto : AuthCrypto) (settings : AuthSettings) (s : Store Db)
    (email password : String) : Except ServiceError (Option User) :=
  ((authenticateUser crypto settings email password).serial postgres s.db s.db s.sequence).result

/-- The email and the password log in the user, and with no password the email logs in another
one. -/
structure LogsIn (crypto : AuthCrypto) (settings : AuthSettings) (s : Store Db) (id : Uuid)
    (email password : String) : Prop where
  returned : ∃ user, loginAnswer crypto settings s email password = .ok (some user) ∧ user.id = id
  alone : ∀ password' user, loginAnswer crypto settings s email password' = .ok (some user) →
    user.id = id

/-! ## Statements -/

/-- The statements of the two operations. -/
def Administers : Statement → Prop
  | .account (.insertUser _) => True
  | .account (.updateUser _ _) => True
  | .rbac _ => True
  | _ => False

/-- Every user keeps what a login looks at. -/
def UsersKept (db db' : Db) : Prop :=
  ∀ u ∈ db.accounts.users.rows, ∃ v ∈ db'.accounts.users.rows, v.id = u.id ∧ v.email = u.email ∧
    v.hashedPassword = u.hashedPassword ∧ v.isActive = u.isActive

theorem UsersKept.refl (db : Db) : UsersKept db db := fun u hu => ⟨u, hu, rfl, rfl, rfl, rfl⟩

theorem UsersKept.trans {a b c : Db} (h : UsersKept a b) (h' : UsersKept b c) : UsersKept a c := by
  intro u hu
  obtain ⟨v, hv, hid, hemail, hhash, hactive⟩ := h u hu
  obtain ⟨w, hw, hid', hemail', hhash', hactive'⟩ := h' v hv
  exact ⟨w, hw, hid'.trans hid, hemail'.trans hemail, hhash'.trans hhash, hactive'.trans hactive⟩

theorem Administers.apply {w : Statement} (hw : Administers w) {db db' : Db}
    (h : postgres.apply w db = some db') : UsersKept db db' := by
  cases w with
  | account statement =>
    obtain ⟨accounts, hst, rfl⟩ := apply_account.mp h
    cases statement with
    | insertUser u =>
      obtain ⟨_, _, _, users, -, -, -, -, hinsert, rfl⟩ := AccountStore.insertUser_eq_some.mp hst
      intro v hv
      refine ⟨v, ?_, rfl, rfl, rfl, rfl⟩
      exact (Table.mem_insert hinsert).mpr (.inl hv)
    | updateUser id patch =>
      obtain ⟨_, users, -, hupdate, rfl⟩ := AccountStore.updateUser_eq_some.mp hst
      intro v hv
      refine ⟨_, (Table.update_eq_some.mp hupdate).2 ▸ List.mem_map_of_mem hv, ?_⟩
      split <;> exact ⟨rfl, rfl, rfl, rfl⟩
    | _ => exact hw.elim
  | rbac statement =>
    obtain ⟨_, -, rfl⟩ := apply_rbac.mp h
    exact .refl db
  | _ => exact hw.elim

/-- The constraint is kept by every statement. -/
theorem UniqueEmails.apply {w : Statement} {db db' : Db} (happly : postgres.apply w db = some db')
    (h : UniqueEmails db) : UniqueEmails db' := by
  unfold UniqueEmails at h ⊢
  rcases (apply_frame happly).accounts with ⟨statement, rfl, hst⟩ | hsame
  · rcases apply_users hst with ⟨u, v, -, hinsert, hfresh⟩ | ⟨f, hf, hrows⟩
    · rw [(Table.insert_eq_some.mp hinsert).2]
      exact nodup_concat h hfresh
    · have hemails : db'.accounts.users.rows.map User.email =
          db.accounts.users.rows.map User.email := by
        rw [hrows, List.map_map]
        apply List.map_congr_left
        intro u _
        exact (hf u).2
      rwa [hemails]
  · rwa [hsame]

section

variable {crypto : AuthCrypto} {env : RbacEnv}

theorem rolesByUser_readsOnly (userIds : List Uuid) : (rolesByUser env userIds).ReadsOnly := by
  unfold rolesByUser
  split
  · trivial
  · exact (Request.readsOnly_select _).bind fun _ => trivial

theorem administers_userView (user : User) : (userView env user).Sends Administers :=
  (rolesByUser_readsOnly _).sends.bind fun _ => trivial

theorem administers_roleLinks (userId : Uuid) (roles : List Role) :
    ∀ w ∈ roleLinks env userId roles, Administers w := by
  intro w hw
  obtain ⟨i, hi, rfl⟩ := List.mem_mapIdx.mp hw
  trivial

theorem administers_createUser (payload : RbacUserCreate) :
    (createUser crypto env payload).Sends Administers := by
  apply (ensure_readsOnly _ _).sends.bind
  intro _
  apply (Request.sends_select _).bind
  intro rows
  apply (scalarOneOrNone_readsOnly rows).sends.bind
  intro existing
  apply (ensure_readsOnly _ _).sends.bind
  intro _
  apply (found_readsOnly _ _).sends.bind
  intro hashedPassword
  apply (Request.sends_send fun _ => List.forall_mem_singleton.mpr trivial).bind
  intro _
  apply (requestedRoles_readsOnly _).sends.bind
  intro roles
  apply (Request.sends_send fun _ => administers_roleLinks _ roles).bind
  intro _
  exact Request.sends_commit.bind fun _ => administers_userView _

theorem administers_saveUser (old new : User) : ∀ w ∈ saveUser old new, Administers w := by
  unfold saveUser
  split <;> simp [Administers]

theorem administers_updateUser (userId : Uuid) (payload : RbacUserUpdate) :
    (updateUser env userId payload).Sends Administers := by
  apply (getUserOrm_readsOnly _).sends.bind
  intro user
  apply (Request.sends_send fun _ => administers_saveUser user _).bind
  intro _
  exact Request.sends_commit.bind fun _ => administers_userView _

theorem UserRequest.administers (r : UserRequest) : (r.request crypto).Sends Administers := by
  cases r with
  | createUser env payload => exact (administers_createUser payload).answer
  | updateUser env userId payload => exact (administers_updateUser userId payload).answer

end

/-! ## Creation -/

/-- The account that a creation leaves. -/
structure Created (crypto : AuthCrypto) (payload : RbacUserCreate) (id : Uuid) (db : Db) : Prop where
  storable : (text payload.email).isSome = true
  stored : ∃ salt hashedPassword, crypto.hashPassword salt payload.password = some hashedPassword ∧
    ∃ user ∈ db.accounts.users.rows, user.id = id ∧ user.email = payload.email ∧
      varchar 255 hashedPassword = some user.hashedPassword ∧ user.isActive = true

section

variable {crypto : AuthCrypto} {env : RbacEnv} {db : Db} {n : ℕ}

theorem roleLinks_accounts {userId : Uuid} {roles : List Role} {work work' : Db}
    (h : postgres.applyAll (roleLinks env userId roles) work = some work') :
    work'.accounts = work.accounts := by
  apply postgres.applyAll_preserves (P := fun d => d.accounts = work.accounts) _ h rfl
  intro w hw d d' happly hd
  obtain ⟨i, hi, rfl⟩ := List.mem_mapIdx.mp hw
  obtain ⟨_, -, rfl⟩ := apply_rbac.mp happly
  exact hd

theorem requestedRoles_wp {roleIds : List Uuid}
    {post : Except ServiceError (List Role) → Db → Db → ℕ → Prop} {durable work : Db}
    (failed : ∀ error, post (.error error) durable work n)
    (read : ∀ roles, post (.ok roles) durable work n) :
    (requestedRoles env roleIds).wp postgres post durable work n := by
  unfold requestedRoles
  split
  · exact Request.wp_return (read _)
  · apply (Request.wp_bind ..).mpr
    rw [Request.wp_select]
    apply (Request.wp_bind ..).mpr
    exact wp_ensure.mpr ⟨fun _ => failed _, fun _ => Request.wp_return (read _)⟩

/-- The row that a creation has stored. -/
structure Stores (crypto : AuthCrypto) (env : RbacEnv) (payload : RbacUserCreate)
    (view : RbacUserRead) (db : Db) : Prop where
  storable : (text payload.email).isSome = true
  id : view.id = env.uuid4
  row : ∃ displayName hashedPassword stored,
    crypto.hashPassword env.salt payload.password = some hashedPassword ∧
    varchar 255 hashedPassword = some stored ∧
    { newUser env payload stored with displayName := displayName } ∈ db.accounts.users.rows

theorem createUser_stores (payload : RbacUserCreate) :
    (createUser crypto env payload).wp postgres (fun result durable _ _ =>
      ∀ view, result = .ok view → Stores crypto env payload view durable) db db n := by
  have failed : ∀ {error : ServiceError} {durable : Db} (view : RbacUserRead),
      Except.error error = .ok view → Stores crypto env payload view durable :=
    fun _ h => nomatch h
  apply (Request.wp_bind ..).mpr
  refine wp_ensure.mpr ⟨fun _ => failed, fun hstorable => ?_⟩
  apply (Request.wp_bind ..).mpr
  rw [Request.wp_select]
  apply (Request.wp_bind ..).mpr
  refine scalarOneOrNone_wp (fun _ => failed) fun _ => ?_
  apply (Request.wp_bind ..).mpr
  refine wp_ensure.mpr ⟨fun _ => failed, fun _ => ?_⟩
  apply (Request.wp_bind ..).mpr
  refine wp_found.mpr ⟨fun _ => failed, fun hashedPassword hhash => ?_⟩
  refine send_account_wp (fun _ => failed) fun accounts hinserted => ?_
  obtain ⟨email, displayName, stored, users, hemail, -, hstored, -, hinsert, rfl⟩ :=
    AccountStore.insertUser_eq_some.mp hinserted
  obtain rfl := varchar_of_length_le hemail payload.email_max
  apply (Request.wp_bind ..).mpr
  refine requestedRoles_wp (fun _ => failed) fun roles => ?_
  apply (Request.wp_bind ..).mpr
  refine Request.wp_send.mpr ⟨fun _ => failed, fun work' hlinks => ?_⟩
  apply Request.wp_commitTransaction_bind
  apply userView_wp
  rintro roles' view hview
  obtain rfl := Except.ok.inj hview
  have hmem := (Table.mem_insert hinsert).mpr (.inr rfl)
  have husers : work'.accounts.users = users := by rw [roleLinks_accounts hlinks]
  rw [← husers] at hmem
  exact ⟨hstorable, rfl, displayName, hashedPassword, stored, hhash, hstored, hmem⟩

/-- A creation that is answered has stored the account under the email that was given. -/
theorem createUser_created (payload : RbacUserCreate) :
    (createUser crypto env payload).wp postgres (fun result durable _ _ =>
      ∀ view, result = .ok view → Created crypto payload view.id durable) db db n := by
  apply Request.wp_mono (createUser_stores payload)
  intro result durable _ _ hstores view hview
  obtain ⟨hstorable, hid, displayName, hashedPassword, stored, hhash, hstored, hmem⟩ :=
    hstores view hview
  exact ⟨hstorable, env.salt, hashedPassword, hhash, _, hmem, hid.symm, rfl, hstored, rfl⟩

end

/-! ## Logins -/

section

variable {crypto : AuthCrypto} {settings : AuthSettings} {s : Store Db} {email : String}

/-- A login that returns a user has found it under its key. -/
theorem loginAnswer_sound {password : String} {user : User}
    (h : loginAnswer crypto settings s email password = .ok (some user)) :
    user ∈ s.db.accounts.users.rows ∧ user.email = loginKey settings email := by
  have hsound : (authenticateUser crypto settings email password).wp postgres
      (fun result _ _ _ => ∀ u, result = .ok (some u) →
        u ∈ s.db.accounts.users.rows ∧ u.email = loginKey settings email)
      s.db s.db s.sequence := by
    apply (Request.wp_bind ..).mpr
    apply (Request.wp_bind ..).mpr
    refine wp_ensure.mpr ⟨fun _ _ h => (nomatch h), fun _ => ?_⟩
    apply (Request.wp_bind ..).mpr
    rw [Request.wp_select]
    refine scalarOneOrNone_wp (fun _ _ h => (nomatch h)) fun _ => ?_
    dsimp only
    have hkey : String.ofList (settings.tables.lower (chars email)) = loginKey settings email := rfl
    rw [hkey]
    cases hfound : (s.db.accounts.users.rows.filter fun u =>
        u.email = loginKey settings email).head?.filter User.isActive with
    | none => exact Request.wp_return fun _ h => nomatch h
    | some found =>
      have hrow := List.mem_of_head? (Option.filter_eq_some_iff.mp hfound).1
      rw [List.mem_filter, decide_eq_true_eq] at hrow
      apply (Request.wp_bind ..).mpr
      refine wp_found.mpr ⟨fun _ _ h => (nomatch h), fun verified _ => Request.wp_return ?_⟩
      intro u hu
      split at hu
      · cases hu
        exact hrow
      · cases hu
  exact (Request.serial_sound hsound).elim fun _ hpost => hpost user h

/-- The active user of a key logs in with a password that its hash accepts. -/
theorem loginAnswer_returns (unique : UniqueEmails s.db) {password : String} {user : User}
    (huser : user ∈ s.db.accounts.users.rows) (hkey : user.email = loginKey settings email)
    (hactive : user.isActive = true) (hstorable : (text user.email).isSome = true)
    (accepts : crypto.verifyPassword password user.hashedPassword = some true) :
    loginAnswer crypto settings s email password = .ok (some user) := by
  have hrows : (s.db.accounts.users.rows.filter fun u =>
      u.email = String.ofList (settings.tables.lower (chars email))) = [user] := by
    have hfilter := Table.filter_key unique huser
    rwa [hkey] at hfilter
  have hanswer : (authenticateUser crypto settings email password).wp postgres
      (fun result _ _ _ => result = .ok (some user)) s.db s.db s.sequence := by
    apply (Request.wp_bind ..).mpr
    apply (Request.wp_bind ..).mpr
    rw [hkey] at hstorable
    refine wp_ensure.mpr ⟨fun hnot => absurd hstorable hnot, fun _ => ?_⟩
    apply (Request.wp_bind ..).mpr
    rw [Request.wp_select, hrows]
    apply Request.wp_return
    simp only [Option.filter_some, hactive, if_true]
    apply (Request.wp_bind ..).mpr
    refine wp_found.mpr ⟨fun hnone => ?_, fun verified hverified => ?_⟩
    · rw [accepts] at hnone
      cases hnone
    · rw [accepts] at hverified
      cases hverified
      exact Request.wp_return rfl
  exact (Request.serial_sound hanswer).elim fun _ h => h

end

/-! ## Runs -/

theorem execAll_kept (crypto : AuthCrypto) (s : Store Db) (rs : List UserRequest) :
    UsersKept s.db (execAll crypto s rs).db := by
  apply Store.execAll_preserves (P := fun t => UsersKept s.db t.db) (Q := fun _ _ => True)
    (.refl s.db) fun _ _ _ _ => trivial
  intro t r _ h
  exact h.trans (Store.exec_rel .refl .trans (fun _ _ _ hw => hw.apply) (r.administers) t)

theorem execAll_unique (crypto : AuthCrypto) {s : Store Db} (h : UniqueEmails s.db)
    (rs : List UserRequest) : UniqueEmails (execAll crypto s rs).db :=
  Store.execAll_preserves (P := fun t => UniqueEmails t.db) (Q := fun _ _ => True) h
    (fun _ _ _ _ => trivial)
    fun t _ _ ht => Store.exec_invariant (fun _ _ _ happly hu => hu.apply happly) _ t ht

/-- An account that was created stays as a login sees it. -/
theorem Created.kept {crypto : AuthCrypto} {payload : RbacUserCreate} {id : Uuid} {db db' : Db}
    (h : Created crypto payload id db) (kept : UsersKept db db') :
    Created crypto payload id db' := by
  obtain ⟨hstorable, salt, hashedPassword, hhash, u, hu, hid, hemail, hstored, hactive⟩ := h
  obtain ⟨v, hv, hid', hemail', hhash', hactive'⟩ := kept u hu
  exact ⟨hstorable, salt, hashedPassword, hhash, v, hv, hid'.trans hid, hemail'.trans hemail,
    hhash'.symm ▸ hstored, hactive'.trans hactive⟩

/-- An account logs in by the email it was created with if and only if that is its own lower case,
after every run of other creations and of updates. -/
theorem created_logsIn_iff {crypto : AuthCrypto} {settings : AuthSettings}
    (fits : ∀ salt password hash, crypto.hashPassword salt password = some hash →
      hash.toList.length ≤ 255)
    (accepts : ∀ salt password hash, crypto.hashPassword salt password = some hash →
      crypto.verifyPassword password hash = some true)
    {s : Store Db} (unique : UniqueEmails s.db) {env : RbacEnv} {payload : RbacUserCreate}
    {view : RbacUserRead}
    (created : ((createUser crypto env payload).serial postgres s.db s.db s.sequence).result =
      .ok view) (rs : List UserRequest) :
    LogsIn crypto settings (execAll crypto (s.exec postgres (createUser crypto env payload)) rs)
      view.id payload.email payload.password ↔ loginKey settings payload.email = payload.email := by
  have hstart : Created crypto payload view.id
      (s.exec postgres (createUser crypto env payload)).db := by
    obtain ⟨_, hpost⟩ := Request.serial_sound (createUser_created payload)
    exact hpost view created
  have huniqueStart : UniqueEmails (s.exec postgres (createUser crypto env payload)).db :=
    Store.exec_invariant (fun _ _ _ happly hu => hu.apply happly) _ s unique
  have hend := hstart.kept (execAll_kept crypto _ rs)
  have huniqueEnd := execAll_unique crypto huniqueStart rs
  generalize execAll crypto (s.exec postgres (createUser crypto env payload)) rs = t
    at hend huniqueEnd ⊢
  obtain ⟨hstorable, salt, hash, hhash, u, hu, hid, hemail, hstored, hactive⟩ := hend
  obtain rfl := varchar_of_length_le hstored (fits salt _ hash hhash)
  constructor
  · rintro ⟨⟨user, hanswer, huser⟩, -⟩
    obtain ⟨hmem, hkey⟩ := loginAnswer_sound hanswer
    obtain rfl := t.db.accounts.users.eq_of_key_eq hmem hu (huser.trans hid.symm)
    exact hkey.symm.trans hemail
  · intro hkey
    have hfound : u.email = loginKey settings payload.email := hemail.trans hkey.symm
    refine ⟨⟨u, ?_, hid⟩, fun password' user hanswer => ?_⟩
    · apply loginAnswer_returns huniqueEnd hu hfound hactive
      · rwa [hemail]
      · exact accepts salt _ _ hhash
    · obtain ⟨hmem, hkey'⟩ := loginAnswer_sound hanswer
      have hsame : user = u :=
        List.inj_on_of_nodup_map huniqueEnd hmem hu (hkey'.trans hfound.symm)
      rw [hsame, hid]

/-! ## Sample accounts -/

def sampleRbacEnv (k : ℕ) : RbacEnv where
  uuid4 := 20 + k
  linkUuid4 i := 100 * (k + 2) + i
  salt := k
  createdAt := 63839664000000000 + 1000000 * k
  rowOrder a b := decide (a ≤ b)
  collate a b := decide (a ≤ b)

theorem ada_length : "ada@nexus.io".toList.length = 12 := by decide

theorem oldPassword_length : "old password".toList.length = 12 := by decide

/-- Ada, with an email of 12 characters. -/
def sampleAccount (email password : String) (hemail : email.toList.length = 12 := by decide)
    (hpassword : password.toList.length = 12 := by decide) : RbacUserCreate where
  email := email
  email_min := by omega
  email_max := by omega
  displayName := "Ada"
  displayName_min := by decide
  displayName_max := by decide
  password := password
  password_min := by omega
  password_max := by omega

def sampleUserUpdate : RbacUserUpdate where
  displayName := some "Ada L."
  displayName_min := by simp
  displayName_max := by simp
  isAdmin := some true

theorem sampleAuthCrypto_fits (salt : ℕ) (password hash : String)
    (h : sampleAuthCrypto.hashPassword salt password = some hash) : hash.toList.length ≤ 255 := by
  obtain ⟨e, he, rfl⟩ := Option.map_eq_some_iff.mp h
  have hall : ∀ e ∈ samplePasswords, e.2.toList.length ≤ 255 := by decide
  exact hall e (List.mem_of_find?_eq_some he)

theorem sampleAuthCrypto_accepts (salt : ℕ) (password hash : String)
    (h : sampleAuthCrypto.hashPassword salt password = some hash) :
    sampleAuthCrypto.verifyPassword password hash = some true := by
  obtain ⟨e, he, rfl⟩ := Option.map_eq_some_iff.mp h
  obtain rfl : e.1 = password := by simpa using List.find?_some he
  have hmem := List.mem_of_find?_eq_some he
  simp [sampleAuthCrypto, hmem]

/-- An account with an email in lower case logs in after an update. -/
theorem created_logsIn_iff_sample :
    LogsIn sampleAuthCrypto sampleSettings
      (execAll sampleAuthCrypto (sampleAccounts.exec postgres (createUser sampleAuthCrypto
          (sampleRbacEnv 0) (sampleAccount "ada@nexus.io" "old password")))
        [.updateUser (sampleRbacEnv 1) 20 sampleUserUpdate]) 20 "ada@nexus.io" "old password" := by
  have unique : UniqueEmails sampleAccounts.db := List.nodup_singleton _
  have created : ((createUser sampleAuthCrypto (sampleRbacEnv 0)
      (sampleAccount "ada@nexus.io" "old password")).serial postgres sampleAccounts.db
        sampleAccounts.db sampleAccounts.sequence).result =
      .ok ⟨20, "ada@nexus.io", "Ada", true, false, []⟩ := by decide +kernel
  exact (created_logsIn_iff sampleAuthCrypto_fits sampleAuthCrypto_accepts unique created
    [.updateUser (sampleRbacEnv 1) 20 sampleUserUpdate]).mpr (by decide)

/-- The store of two accounts, whose emails differ in the case of one letter. -/
def sampleTwins : Store Db :=
  execAll sampleAuthCrypto ⟨emptyDb, 1⟩
    [.createUser (sampleRbacEnv 0) (sampleAccount "ada@nexus.io" "new password"),
      .createUser (sampleRbacEnv 1) (sampleAccount "Ada@nexus.io" "old password")]

/-- The second of them does not log in with its own email and password, and with the password of
the first its email logs in the first. -/
theorem mixed_case_account_locked_out :
    sampleTwins.db.accounts.users.rows.map (fun u => (u.id, u.email)) =
        [(20, "ada@nexus.io"), (21, "Ada@nexus.io")] ∧
      loginAnswer sampleAuthCrypto sampleSettings sampleTwins "Ada@nexus.io" "old password" =
        .ok none ∧
      (loginAnswer sampleAuthCrypto sampleSettings sampleTwins "Ada@nexus.io" "new password").map
        (Option.map User.id) = .ok (some 20) := by
  decide +kernel

end NexusEngine.AccountLogins
