import NexusEngine.AuthService
import NexusEngine.Sha256

/-!
# What the operations of the session service do

Each operation, run to its end, has one effect on the accounts, and a failed one has none.
Presenting a refresh token does not fail where no two rows share a hash: its row is found, and
the update is accepted.
-/

namespace NexusEngine.AuthLifecycle

open TransactionalRequests TextEncodings CalendarTime StoredColumns KeyedTables AccountTables
  Database AuthService

/-! ## Accepted statements -/

theorem notMem_hexdigest (bs : Bytes) : ' ' ∉ (hexdigest bs).toList := by
  intro h
  simp only [hexdigest, String.toList_ofList, List.mem_flatMap, hexByte, List.mem_cons,
    List.not_mem_nil, or_false] at h
  obtain ⟨b, -, hb⟩ := h
  have hlt : b.toNat < 256 := b.toNat_lt
  have hdigit : ∀ m < 16, ' ' ≠ hexDigit m := by decide
  rcases hb with hb | hb
  · exact hdigit _ (by omega) hb
  · exact hdigit _ (by omega) hb

/-- A hash is stored as it is. -/
theorem varchar_hexdigest {n : ℕ} {bs : Bytes} {s : String}
    (h : varchar n (hexdigest bs) = some s) : s = hexdigest bs :=
  (varchar_eq_or_blank h).resolve_right (notMem_hexdigest bs)

theorem hashRefreshToken_injective {crypto : AuthCrypto}
    (h : Function.Injective crypto.sha256) : Function.Injective crypto.hashRefreshToken := by
  intro raw raw' heq
  have hchars := utf8_injective (h (hexdigest_injective heq))
  rw [chars_eq, chars_eq] at hchars
  exact String.toList_inj.mp hchars

/-- The rows with the tokens that pass the test revoked. -/
def revokeWhere (p : RefreshToken → Prop) [DecidablePred p] (now : Instant)
    (rows : List RefreshToken) : List RefreshToken :=
  rows.map fun t => if p t then { t with revokedAt := some now } else t

theorem mem_revokeWhere {p : RefreshToken → Prop} [DecidablePred p] {now : Instant}
    {rows : List RefreshToken} {t : RefreshToken} (active : t.revokedAt = none) :
    t ∈ revokeWhere p now rows ↔ t ∈ rows ∧ ¬ p t := by
  constructor
  · intro h
    obtain ⟨r, hr, rfl⟩ := List.mem_map.mp h
    by_cases hp : p r
    · rw [if_pos hp] at active
      cases active
    · rw [if_neg hp]
      exact ⟨hr, hp⟩
  · rintro ⟨ht, hp⟩
    exact List.mem_map.mpr ⟨t, ht, if_neg hp⟩

theorem redeemable_eq_none {now : Instant} {token : Option RefreshToken}
    (h : redeemable now token = none) {t : RefreshToken} (ht : token = some t)
    (active : t.revokedAt = none) : t.expiresAt < now := by
  have hfails := Option.filter_eq_none_iff.mp h t ht
  simpa [active] using hfails

theorem redeemable_eq_some {now : Instant} {token : Option RefreshToken} {t : RefreshToken} :
    redeemable now token = some t ↔ token = some t ∧ t.revokedAt = none ∧ now ≤ t.expiresAt := by
  simp [redeemable, Option.filter_eq_some_iff]

section

variable {s s' : AccountStore}

theorem updateRefreshToken_eq_some {id : Uuid} {now : Instant} :
    s.updateRefreshToken id now = some s' ↔
      (∃ t, s.refreshTokens.find? id = some t) ∧ s' = { s with refreshTokens := s'.refreshTokens } ∧
        s'.refreshTokens.rows = revokeWhere (fun t => t.id = id) now s.refreshTokens.rows := by
  rw [AccountStore.updateRefreshToken, Option.map_eq_some_iff]
  constructor
  · rintro ⟨tokens, hupdate, rfl⟩
    obtain ⟨hfound, hrows⟩ := Table.update_eq_some.mp hupdate
    exact ⟨hfound, rfl, hrows⟩
  · rintro ⟨hfound, hs', hrows⟩
    exact ⟨s'.refreshTokens, Table.update_eq_some.mpr ⟨hfound, hrows⟩, hs'.symm⟩

theorem insertRefreshToken_eq_some {t : RefreshToken} (h : s.insertRefreshToken t = some s') :
    ∃ tokenHash, varchar 64 t.tokenHash = some tokenHash ∧
      (∀ r ∈ s.refreshTokens.rows, r.tokenHash ≠ tokenHash) ∧
      s' = { s with refreshTokens := s'.refreshTokens } ∧
      s'.refreshTokens.rows = s.refreshTokens.rows ++ [{ t with tokenHash := tokenHash }] := by
  simp only [AccountStore.insertRefreshToken, Option.bind_eq_bind, Option.bind_eq_some_iff,
    Option.ite_none_left_eq_some, Option.ite_none_right_eq_some, Option.pure_def,
    Option.some.injEq] at h
  obtain ⟨tokenHash, hhash, hfresh, -, tokens, hinsert, rfl⟩ := h
  refine ⟨tokenHash, hhash, fun r hr heq => hfresh ?_, rfl, (Table.insert_eq_some.mp hinsert).2⟩
  exact List.any_eq_true.mpr ⟨r, hr, by simpa using heq⟩

theorem updatePassword_eq_some {id : Uuid} {hashedPassword : String}
    (h : s.updatePassword id hashedPassword = some s') :
    s' = { s with users := s'.users } := by
  simp only [AccountStore.updatePassword, Option.bind_eq_bind, Option.bind_eq_some_iff,
    Option.pure_def, Option.some.injEq] at h
  obtain ⟨_, -, users, -, rfl⟩ := h
  rfl

theorem updateIsActive_eq_some {id : Uuid} {isActive : Bool}
    (h : s.updateIsActive id isActive = some s') : s' = { s with users := s'.users } := by
  obtain ⟨users, -, rfl⟩ := Option.map_eq_some_iff.mp h
  rfl

theorem insertPasswordResetToken_eq_some {t : PasswordResetToken}
    (h : s.insertPasswordResetToken t = some s') :
    ∃ tokenHash, varchar 64 t.tokenHash = some tokenHash ∧
      s' = { s with passwordResetTokens := s'.passwordResetTokens } ∧
      s'.passwordResetTokens.rows =
        s.passwordResetTokens.rows ++ [{ t with tokenHash := tokenHash }] := by
  simp only [AccountStore.insertPasswordResetToken, Option.bind_eq_bind, Option.bind_eq_some_iff,
    Option.ite_none_left_eq_some, Option.ite_none_right_eq_some, Option.pure_def,
    Option.some.injEq] at h
  obtain ⟨tokenHash, hhash, -, -, tokens, hinsert, rfl⟩ := h
  exact ⟨tokenHash, hhash, rfl, (Table.insert_eq_some.mp hinsert).2⟩

theorem updatePasswordResetToken_eq_some {id : Uuid} {now : Instant}
    (h : s.updatePasswordResetToken id now = some s') :
    s' = { s with passwordResetTokens := s'.passwordResetTokens } ∧
      s'.passwordResetTokens.rows = s.passwordResetTokens.rows.map fun t =>
        if t.id = id then { t with usedAt := some now } else t := by
  obtain ⟨tokens, hupdate, rfl⟩ := Option.map_eq_some_iff.mp h
  exact ⟨rfl, (Table.update_eq_some.mp hupdate).2⟩

end

theorem applyAll_account_cons {statement : AccountStatement} {ws : List Statement} {db db' : Db}
    (h : postgres.applyAll (.account statement :: ws) db = some db') :
    ∃ accounts, statement.apply db.accounts = some accounts ∧
      postgres.applyAll ws { db with accounts := accounts } = some db' := by
  rw [StatementSemantics.applyAll_cons, Option.bind_eq_some_iff] at h
  obtain ⟨next, hfirst, hrest⟩ := h
  obtain ⟨accounts, happly, rfl⟩ := apply_account.mp hfirst
  exact ⟨accounts, happly, hrest⟩

theorem applyAll_account_singleton {statement : AccountStatement} {db db' : Db}
    (h : postgres.applyAll [.account statement] db = some db') :
    ∃ accounts, statement.apply db.accounts = some accounts ∧
      db' = { db with accounts := accounts } := by
  obtain ⟨accounts, happly, hnil⟩ := applyAll_account_cons h
  cases hnil
  exact ⟨accounts, happly, rfl⟩

/-- Revoking the tokens that have been read revokes their rows. -/
theorem revokeStatements_sound {now : Instant} {tokens : List RefreshToken} {db db' : Db}
    (h : postgres.applyAll (revokeStatements now tokens) db = some db') :
    db'.accounts = { db.accounts with refreshTokens := db'.accounts.refreshTokens } ∧
      db'.accounts.refreshTokens.rows =
        revokeWhere (fun t => t.id ∈ tokens.map RefreshToken.id) now
          db.accounts.refreshTokens.rows := by
  induction tokens generalizing db with
  | nil =>
    cases h
    exact ⟨rfl, by simp [revokeWhere]⟩
  | cons t tokens ih =>
    obtain ⟨accounts, happly, hrest⟩ := applyAll_account_cons h
    obtain ⟨-, haccounts, hrows⟩ := updateRefreshToken_eq_some.mp happly
    obtain ⟨hsame, hrows'⟩ := ih hrest
    refine ⟨by rw [hsame, haccounts], ?_⟩
    rw [hrows', hrows, revokeWhere, revokeWhere, List.map_map]
    refine List.map_congr_left fun r _ => ?_
    simp only [Function.comp, List.map_cons, List.mem_cons]
    by_cases hid : r.id = t.id
    · simp [hid]
    · simp [hid]

/-- Revoking what a query found active revokes every active token of the user. -/
theorem revokeAll_sound {now : Instant} {userId : Uuid} {s : AccountStore} {db db' : Db}
    (h : postgres.applyAll (revokeStatements now (activeTokens s userId)) db = some db')
    (hrows : db.accounts.refreshTokens = s.refreshTokens) :
    db'.accounts = { db.accounts with refreshTokens := db'.accounts.refreshTokens } ∧
      db'.accounts.refreshTokens.rows =
        revokeWhere (fun t => t.userId = userId ∧ t.revokedAt = none) now s.refreshTokens.rows := by
  obtain ⟨hsame, hrevoked⟩ := revokeStatements_sound h
  refine ⟨hsame, ?_⟩
  rw [hrevoked, hrows]
  refine List.map_congr_left fun t ht => ?_
  have hiff : t.id ∈ (activeTokens s userId).map RefreshToken.id ↔
      t.userId = userId ∧ t.revokedAt = none := by
    constructor
    · intro hmem
      obtain ⟨r, hr, hid⟩ := List.mem_map.mp hmem
      obtain ⟨hrow, hactive⟩ := List.mem_filter.mp hr
      obtain rfl := s.refreshTokens.eq_of_key_eq hrow ht hid
      simpa using hactive
    · intro hactive
      exact List.mem_map.mpr ⟨t, List.mem_filter.mpr ⟨ht, by simpa using hactive⟩, rfl⟩
  simp only [hiff]

/-! ## Effects -/

/-- The row of a raw token. -/
def tokenOf (crypto : AuthCrypto) (s : AccountStore) (rawToken : String) : Option RefreshToken :=
  s.refreshTokens.rows.find? fun t => t.tokenHash = crypto.hashRefreshToken rawToken

def resetTokenOf (crypto : AuthCrypto) (s : AccountStore) (rawToken : String) :
    Option PasswordResetToken :=
  s.passwordResetTokens.rows.find? fun t => t.tokenHash = crypto.hashRefreshToken rawToken

def UniqueHashes (s : AccountStore) : Prop := (s.refreshTokens.rows.map RefreshToken.tokenHash).Nodup

/-- What a request does to the accounts, together with its response. -/
inductive AuthEffect (crypto : AuthCrypto) (settings : AuthSettings) (s s' : AccountStore) :
    AuthRequest → Except ServiceError AuthResponse → Prop where
  | failed {r error} (presents : r.presents = none ∨ ¬ UniqueHashes s) (same : s' = s) :
      AuthEffect crypto settings s s' r (.error error)
  | issued {r} (env : AuthEnv) (user : User)
      (request : (∃ email password, r = .login env email password) ∨ r = .issue env user)
      (fresh : ∀ t ∈ s.refreshTokens.rows, t.tokenHash ≠ crypto.hashRefreshToken env.rawToken)
      (rest : s' = { s with refreshTokens := s'.refreshTokens })
      (rows : s'.refreshTokens.rows =
        s.refreshTokens.rows ++ [crypto.refreshToken settings env user]) :
      AuthEffect crypto settings s s' r (.ok (.issued user.id env.rawToken))
  | redeemed {env rawToken} (t : RefreshToken)
      (found : redeemable (env.now 0) (tokenOf crypto s rawToken) = some t)
      (rest : s' = { s with refreshTokens := s'.refreshTokens })
      (rows : s'.refreshTokens.rows =
        revokeWhere (fun r => r.id = t.id) (env.now 1) s.refreshTokens.rows) :
      AuthEffect crypto settings s s' (.redeem env rawToken)
        (.ok (.redeemed ((s.users.find? t.userId).filter User.isActive)))
  | notRedeemed {env rawToken}
      (found : redeemable (env.now 0) (tokenOf crypto s rawToken) = none) (same : s' = s) :
      AuthEffect crypto settings s s' (.redeem env rawToken) (.ok (.redeemed none))
  | revoked {env rawToken} (t : RefreshToken) (found : tokenOf crypto s rawToken = some t)
      (active : t.revokedAt = none)
      (rest : s' = { s with refreshTokens := s'.refreshTokens })
      (rows : s'.refreshTokens.rows =
        revokeWhere (fun r => r.id = t.id) (env.now 0) s.refreshTokens.rows) :
      AuthEffect crypto settings s s' (.revoke env rawToken) (.ok .done)
  | notRevoked {env rawToken}
      (found : ∀ t, tokenOf crypto s rawToken = some t → t.revokedAt ≠ none) (same : s' = s) :
      AuthEffect crypto settings s s' (.revoke env rawToken) (.ok .done)
  | passwordChanged {env userId current new}
      (resets : s'.passwordResetTokens = s.passwordResetTokens)
      (rows : s'.refreshTokens.rows = revokeWhere (fun t => t.userId = userId ∧ t.revokedAt = none)
        (env.now 0) s.refreshTokens.rows) :
      AuthEffect crypto settings s s' (.changePassword env userId current new)
        (.ok (.passwordChanged userId))
  | resetTokenIssued {env email} (user : User)
      (rest : s' = { s with passwordResetTokens := s'.passwordResetTokens })
      (rows : s'.passwordResetTokens.rows =
        s.passwordResetTokens.rows ++ [crypto.passwordResetToken env user]) :
      AuthEffect crypto settings s s' (.createPasswordResetToken env email)
        (.ok (.resetTokenIssued (some env.rawToken)))
  | noResetToken {env email} (same : s' = s) :
      AuthEffect crypto settings s s' (.createPasswordResetToken env email)
        (.ok (.resetTokenIssued none))
  | passwordReset {env rawToken new} (t : PasswordResetToken)
      (found : usable (env.now 0) (resetTokenOf crypto s rawToken) = some t)
      (resets : s'.passwordResetTokens.rows = s.passwordResetTokens.rows.map fun r =>
        if r.id = t.id then { r with usedAt := some (env.now 0) } else r)
      (rows : s'.refreshTokens.rows = revokeWhere (fun r => r.userId = t.userId ∧ r.revokedAt = none)
        (env.now 1) s.refreshTokens.rows) :
      AuthEffect crypto settings s s' (.resetPassword env rawToken new) (.ok (.passwordReset true))
  | notReset {env rawToken new} (same : s' = s) :
      AuthEffect crypto settings s s' (.resetPassword env rawToken new) (.ok (.passwordReset false))
  | activated {userId isActive} (rest : s' = { s with users := s'.users }) :
      AuthEffect crypto settings s s' (.setUserActive userId isActive) (.ok .done)

/-- No value occurs twice in a list without repetitions of it. -/
theorem length_filter_le_one {α β : Type} [DecidableEq β] {f : α → β} {l : List α}
    (h : (l.map f).Nodup) (b : β) : (l.filter fun a => f a = b).length ≤ 1 := by
  have hcount := List.nodup_iff_count_le_one.mp h b
  rw [List.count, List.countP_map, List.countP_eq_length_filter] at hcount
  simpa [Function.comp_def, beq_eq_decide] using hcount

section

variable {crypto : AuthCrypto} {settings : AuthSettings} {db durable work : Db} {n : ℕ}

theorem scalarOneOrNone_wp {α : Type} {rows : List α}
    {post : Except ServiceError (Option α) → Db → Db → ℕ → Prop}
    (several : ¬ rows.length ≤ 1 → post (.error .exception) durable work n)
    (row : rows.length ≤ 1 → post (.ok rows.head?) durable work n) :
    (scalarOneOrNone rows).wp postgres post durable work n := by
  cases rows with
  | nil => exact Request.wp_return (row (Nat.zero_le _))
  | cons first rest =>
    cases rest with
    | nil => exact Request.wp_return (row (Nat.le_refl _))
    | cons second rest => exact Request.wp_raise _ ▸ several (by simp)

theorem userByEmail_wp {email : String}
    {post : Except ServiceError (Option User) → Db → Db → ℕ → Prop}
    (failed : ∀ error, post (.error error) durable work n)
    (row : ∀ user, post (.ok user) durable work n) :
    (userByEmail settings email).wp postgres post durable work n := by
  refine (Request.wp_bind ..).mpr (wp_ensure.mpr ⟨fun _ => failed _, fun _ => ?_⟩)
  refine (Request.wp_bind ..).mpr ?_
  rw [Request.wp_select]
  exact scalarOneOrNone_wp (fun _ => failed _) fun _ => row _

theorem tokenByHash_wp {rawToken : String}
    {post : Except ServiceError (Option RefreshToken) → Db → Db → ℕ → Prop}
    (several : ¬ UniqueHashes work.accounts → post (.error .exception) durable work n)
    (row : post (.ok (tokenOf crypto work.accounts rawToken)) durable work n) :
    (tokenByHash crypto rawToken).wp postgres post durable work n := by
  refine (Request.wp_bind ..).mpr ?_
  rw [Request.wp_select]
  refine scalarOneOrNone_wp (fun h => several fun unique => h (length_filter_le_one unique _))
    fun _ => ?_
  rw [List.head?_filter]
  exact row

theorem resetTokenByHash_wp {rawToken : String}
    {post : Except ServiceError (Option PasswordResetToken) → Db → Db → ℕ → Prop}
    (failed : ∀ error, post (.error error) durable work n)
    (row : post (.ok (resetTokenOf crypto work.accounts rawToken)) durable work n) :
    (resetTokenByHash crypto rawToken).wp postgres post durable work n := by
  refine (Request.wp_bind ..).mpr ?_
  rw [Request.wp_select]
  refine scalarOneOrNone_wp (fun _ => failed _) fun _ => ?_
  rw [List.head?_filter]
  exact row

/-- The postcondition of an operation: its effect, with the response that `respond` makes of what
it returns. -/
abbrev Shows (crypto : AuthCrypto) (settings : AuthSettings) (r : AuthRequest) (db : Db) {α : Type}
    (respond : α → AuthResponse) (result : Except ServiceError α) (durable _ : Db) (_ : ℕ) : Prop :=
  AuthEffect crypto settings db.accounts durable.accounts r (result.map respond)

/-- Send one statement on the accounts. -/
theorem send_account_wp {α : Type} {statement : AccountStatement} {p : Unit → Service α}
    {post : Except ServiceError α → Db → Db → ℕ → Prop}
    (failed : statement.apply work.accounts = none → post (.error .rejected) durable work (n + 1))
    (sent : ∀ accounts, statement.apply work.accounts = some accounts →
      (p ()).wp postgres post durable { work with accounts := accounts } (n + 1)) :
    (Request.send (fun _ => [Statement.account statement]) >>= p).wp postgres post durable work
      n := by
  refine (Request.wp_bind ..).mpr (Request.wp_send.mpr ⟨fun hnone => failed ?_, fun db' hdb' => ?_⟩)
  · cases h : statement.apply work.accounts with
    | none => rfl
    | some accounts =>
      rw [StatementSemantics.applyAll_cons, apply_account.mpr ⟨accounts, h, rfl⟩] at hnone
      cases hnone
  · obtain ⟨accounts, happly, rfl⟩ := applyAll_account_singleton hdb'
    exact sent accounts happly

/-- The update of a row that has been read is accepted. -/
theorem send_revoke_wp {α : Type} {t : RefreshToken} {now : Instant} {p : Unit → Service α}
    {post : Except ServiceError α → Db → Db → ℕ → Prop} (ht : t ∈ work.accounts.refreshTokens.rows)
    (sent : ∀ accounts : AccountStore, accounts =
      { work.accounts with refreshTokens := accounts.refreshTokens } →
      accounts.refreshTokens.rows =
        revokeWhere (fun r => r.id = t.id) now work.accounts.refreshTokens.rows →
      (p ()).wp postgres post durable { work with accounts := accounts } (n + 1)) :
    (Request.send (fun _ => [Statement.account (.updateRefreshToken t.id now)]) >>= p).wp postgres
      post durable work n := by
  refine send_account_wp (fun hnone => ?_) fun accounts happly => ?_
  · rw [AccountStatement.apply, AccountStore.updateRefreshToken, Option.map_eq_none_iff,
      Table.update, if_pos (List.mem_map_of_mem ht)] at hnone
    cases hnone
  · obtain ⟨-, hrest, hrows⟩ := updateRefreshToken_eq_some.mp happly
    exact sent accounts hrest hrows

theorem issueRefreshToken_effect {r : AuthRequest} {env : AuthEnv} {user : User}
    (request : (∃ email password, r = .login env email password) ∨ r = .issue env user) :
    (issueRefreshToken crypto settings env user).wp postgres
      (Shows crypto settings r db fun rawToken => .issued user.id rawToken) db db n := by
  have hpresents : r.presents = none := by
    rcases request with ⟨_, _, rfl⟩ | rfl
    · rfl
    · rfl
  refine send_account_wp (fun _ => AuthEffect.failed (.inl hpresents) rfl) fun accounts happly => ?_
  obtain ⟨tokenHash, hhash, hfresh, hrest, hrows⟩ := insertRefreshToken_eq_some happly
  obtain rfl := varchar_hexdigest hhash
  exact Request.wp_commitTransaction_bind
    (Request.wp_return (.issued env user request hfresh hrest hrows))

theorem authenticateUser_wp {email password : String}
    {post : Except ServiceError (Option User) → Db → Db → ℕ → Prop}
    (failed : ∀ error, post (.error error) durable work n)
    (row : ∀ user, post (.ok user) durable work n) :
    (authenticateUser crypto settings email password).wp postgres post durable work n := by
  refine (Request.wp_bind ..).mpr (userByEmail_wp failed fun user => ?_)
  dsimp only
  cases user.filter User.isActive with
  | none => exact Request.wp_return (row none)
  | some user =>
    exact (Request.wp_bind ..).mpr (wp_found.mpr
      ⟨fun _ => failed _, fun _ _ => Request.wp_return (row _)⟩)

theorem login_effect {env : AuthEnv} {email password : String} :
    (login crypto settings env email password).wp postgres
      (Shows crypto settings (.login env email password) db fun issued =>
        .issued issued.1.id issued.2) db db n := by
  refine (Request.wp_bind ..).mpr (authenticateUser_wp
    (fun _ => .failed (.inl rfl) rfl) fun user => ?_)
  refine (Request.wp_bind ..).mpr (wp_found.mpr ⟨fun _ => .failed (.inl rfl) rfl, fun user _ => ?_⟩)
  refine (Request.wp_bind ..).mpr (Request.wp_mono
    (issueRefreshToken_effect (.inl ⟨email, password, rfl⟩)) fun result durable _ _ heffect => ?_)
  cases result with
  | ok rawToken => exact Request.wp_return heffect
  | error error => exact heffect

theorem redeemRefreshToken_effect {env : AuthEnv} {rawToken : String} :
    (redeemRefreshToken crypto env rawToken).wp postgres
      (Shows crypto settings (.redeem env rawToken) db .redeemed) db db n := by
  refine (Request.wp_bind ..).mpr (tokenByHash_wp (fun h => .failed (.inr h) rfl) ?_)
  dsimp only
  cases hfound : redeemable (env.now 0) (tokenOf crypto db.accounts rawToken) with
  | none => exact Request.wp_return (.notRedeemed hfound rfl)
  | some t =>
    have hmem : t ∈ db.accounts.refreshTokens.rows :=
      List.mem_of_find?_eq_some (Option.filter_eq_some_iff.mp hfound).1
    refine (Request.wp_bind ..).mpr ?_
    rw [Request.wp_select]
    refine send_revoke_wp hmem fun accounts hrest hrows => ?_
    exact Request.wp_commitTransaction_bind (Request.wp_return (.redeemed t hfound hrest hrows))

theorem revokeRefreshToken_effect {env : AuthEnv} {rawToken : String} :
    (revokeRefreshToken crypto env rawToken).wp postgres
      (Shows crypto settings (.revoke env rawToken) db fun _ => .done) db db n := by
  refine (Request.wp_bind ..).mpr (tokenByHash_wp (fun h => .failed (.inr h) rfl) ?_)
  dsimp only
  cases hfound : (tokenOf crypto db.accounts rawToken).filter fun t => t.revokedAt.isNone with
  | none =>
    rw [Option.filter_eq_none_iff] at hfound
    refine Request.wp_return (.notRevoked (fun t ht hactive => ?_) rfl)
    exact hfound t ht (by rw [hactive, Option.isNone_none])
  | some t =>
    obtain ⟨ht, hactive⟩ := Option.filter_eq_some_iff.mp hfound
    refine send_revoke_wp (List.mem_of_find?_eq_some ht) fun accounts hrest hrows => ?_
    exact Request.wp_commitTransaction
      (.revoked t ht (Option.isNone_iff_eq_none.mp hactive) hrest hrows)

theorem changeOwnPassword_effect {env : AuthEnv} {userId : Uuid} {current new : String} :
    (changeOwnPassword crypto env userId current new).wp postgres
      (Shows crypto settings (.changePassword env userId current new) db
        fun _ => .passwordChanged userId) db db n := by
  refine (Request.wp_bind ..).mpr ((Request.wp_bind ..).mpr ?_)
  rw [Request.wp_select]
  refine wp_found.mpr ⟨fun _ => .failed (.inl rfl) rfl, fun user hfound => ?_⟩
  obtain ⟨-, hid⟩ := Table.find?_eq_some.mp (Option.filter_eq_some_iff.mp hfound).1
  subst hid
  refine (Request.wp_bind ..).mpr (wp_found.mpr ⟨fun _ => .failed (.inl rfl) rfl, fun _ _ => ?_⟩)
  refine (Request.wp_bind ..).mpr (wp_ensure.mpr ⟨fun _ => .failed (.inl rfl) rfl, fun _ => ?_⟩)
  refine (Request.wp_bind ..).mpr (wp_found.mpr ⟨fun _ => .failed (.inl rfl) rfl, fun _ _ => ?_⟩)
  refine (Request.wp_bind ..).mpr ?_
  rw [Request.wp_select]
  refine (Request.wp_bind ..).mpr (Request.wp_send.mpr
    ⟨fun _ => .failed (.inl rfl) rfl, fun work hwork => ?_⟩)
  obtain ⟨accounts, happly, hrevoke⟩ := applyAll_account_cons hwork
  have haccounts := updatePassword_eq_some happly
  obtain ⟨hrest, hrows⟩ := revokeAll_sound hrevoke (by rw [haccounts])
  have hresets : work.accounts.passwordResetTokens = db.accounts.passwordResetTokens := by
    rw [hrest, haccounts]
  exact Request.wp_commitTransaction (.passwordChanged hresets hrows)

theorem createPasswordResetToken_effect {env : AuthEnv} {email : String} :
    (createPasswordResetToken crypto settings env email).wp postgres
      (Shows crypto settings (.createPasswordResetToken env email) db .resetTokenIssued) db db n := by
  refine (Request.wp_bind ..).mpr (userByEmail_wp (fun _ => .failed (.inl rfl) rfl) fun user => ?_)
  dsimp only
  cases user.filter User.isActive with
  | none => exact Request.wp_return (.noResetToken rfl)
  | some user =>
    refine send_account_wp (fun _ => AuthEffect.failed (.inl rfl) rfl) fun accounts happly => ?_
    obtain ⟨tokenHash, hhash, hrest, hrows⟩ := insertPasswordResetToken_eq_some happly
    obtain rfl := varchar_hexdigest hhash
    exact Request.wp_commitTransaction_bind (Request.wp_return (.resetTokenIssued user hrest hrows))

theorem resetPassword_effect {env : AuthEnv} {rawToken new : String} :
    (resetPassword crypto env rawToken new).wp postgres
      (Shows crypto settings (.resetPassword env rawToken new) db .passwordReset) db db n := by
  refine (Request.wp_bind ..).mpr (resetTokenByHash_wp (fun _ => .failed (.inl rfl) rfl) ?_)
  dsimp only
  cases hfound : usable (env.now 0) (resetTokenOf crypto db.accounts rawToken) with
  | none => exact Request.wp_return (.notReset rfl)
  | some t =>
    refine (Request.wp_bind ..).mpr ?_
    rw [Request.wp_select]
    dsimp only
    cases huser : (db.accounts.users.find? t.userId).filter User.isActive with
    | none => exact Request.wp_return (.notReset rfl)
    | some user =>
      obtain ⟨-, hid⟩ := Table.find?_eq_some.mp (Option.filter_eq_some_iff.mp huser).1
      refine (Request.wp_bind ..).mpr (wp_found.mpr ⟨fun _ => .failed (.inl rfl) rfl, fun _ _ => ?_⟩)
      refine (Request.wp_bind ..).mpr ?_
      rw [Request.wp_select]
      refine (Request.wp_bind ..).mpr
        (Request.wp_send.mpr ⟨fun _ => .failed (.inl rfl) rfl, fun work hwork => ?_⟩)
      obtain ⟨_, hpassword, hwork⟩ := applyAll_account_cons hwork
      obtain ⟨_, hused, hrevoke⟩ := applyAll_account_cons hwork
      have haccounts := updatePassword_eq_some hpassword
      obtain ⟨haccounts', husedRows⟩ := updatePasswordResetToken_eq_some hused
      obtain ⟨hrest, hrows⟩ := revokeAll_sound hrevoke (by rw [haccounts', haccounts])
      refine Request.wp_commitTransaction_bind (Request.wp_return (.passwordReset t hfound ?_ ?_))
      · rw [hrest, husedRows, haccounts]
      · rw [← hid]
        exact hrows

theorem setUserActive_effect {userId : Uuid} {isActive : Bool} :
    (setUserActive userId isActive).wp postgres
      (Shows crypto settings (.setUserActive userId isActive) db fun _ => .done) db db n := by
  refine (Request.wp_bind ..).mpr ?_
  rw [Request.wp_select]
  refine (Request.wp_bind ..).mpr (wp_found.mpr ⟨fun _ => .failed (.inl rfl) rfl, fun user _ => ?_⟩)
  by_cases hsame : isActive = user.isActive
  · simp only [if_pos hsame]
    refine (Request.wp_bind ..).mpr (Request.wp_send.mpr
      ⟨fun _ => .failed (.inl rfl) rfl, fun work hwork => ?_⟩)
    cases hwork
    exact Request.wp_commitTransaction_bind (Request.wp_return (.activated rfl))
  · simp only [if_neg hsame]
    refine send_account_wp (fun _ => AuthEffect.failed (.inl rfl) rfl) fun accounts happly => ?_
    exact Request.wp_commitTransaction_bind
      (Request.wp_return (.activated (updateIsActive_eq_some happly)))

end

/-! ## Runs -/

/-- What the application answers to a request. -/
def respond (crypto : AuthCrypto) (settings : AuthSettings) (s : Store Db) (r : AuthRequest) :
    Except ServiceError AuthResponse :=
  ((r.request crypto settings).serial postgres s.db s.db s.sequence).result

def execAll (crypto : AuthCrypto) (settings : AuthSettings) (s : Store Db)
    (rs : List AuthRequest) : Store Db :=
  s.execAll postgres (rs.map (·.request crypto settings))

theorem execAll_append (crypto : AuthCrypto) (settings : AuthSettings) (s : Store Db)
    (rs rs' : List AuthRequest) :
    execAll crypto settings s (rs ++ rs') =
      execAll crypto settings (execAll crypto settings s rs) rs' := by
  rw [execAll, List.map_append, Store.execAll_append]
  rfl

/-- The step lemma of the service: a request has one effect. -/
theorem exec_effect (crypto : AuthCrypto) (settings : AuthSettings) (s : Store Db)
    (r : AuthRequest) :
    AuthEffect crypto settings s.db.accounts
      (s.exec postgres (r.request crypto settings)).db.accounts r (respond crypto settings s r) := by
  have heffect : (r.request crypto settings).wp postgres (fun result durable _ _ =>
      AuthEffect crypto settings s.db.accounts durable.accounts r result) s.db s.db s.sequence := by
    cases r with
    | login env email password => exact Request.wp_answer login_effect
    | issue env user => exact Request.wp_answer (issueRefreshToken_effect (.inr rfl))
    | redeem env rawToken => exact Request.wp_answer (redeemRefreshToken_effect)
    | revoke env rawToken => exact Request.wp_answer (revokeRefreshToken_effect)
    | changePassword env userId current new => exact Request.wp_answer changeOwnPassword_effect
    | createPasswordResetToken env email => exact Request.wp_answer createPasswordResetToken_effect
    | resetPassword env rawToken new => exact Request.wp_answer resetPassword_effect
    | setUserActive userId isActive => exact Request.wp_answer setUserActive_effect
  exact (Request.serial_sound heffect).elim fun _ h => h

/-! ## A sample account -/

/-- Passwords and their hashes. -/
def samplePasswords : List (String × String) :=
  [("old password", "$2b$12$Jq0ZtQmC1nYw7pXr5Vd8ueXJLn4Khi0JtkOoA3bcDcUACGJuISH5S"),
    ("new password", "$2b$12$K8sLfTgHbWc2xEo6NyRa4ub6Ltif8I8hMXFYYjbUaQzN2r9iFHVXq"),
    ("newer password", "$2b$12$M3hDzPiUvBk9qSt1GjXe7eCqkJufPDyVbeZhxd99wzaxCqdmeSHR2")]

def sampleAuthCrypto : AuthCrypto where
  sha256 := Sha256.sha256
  hashPassword _ password := (samplePasswords.find? fun e => e.1 = password).map Prod.snd
  verifyPassword password hashedPassword := some ((password, hashedPassword) ∈ samplePasswords)

def sampleSettings : AuthSettings := { tables := PythonText.asciiTables }

def sampleUser : User where
  id := 1
  email := "alice@example.com"
  displayName := "Alice"
  hashedPassword := "$2b$12$Jq0ZtQmC1nYw7pXr5Vd8ueXJLn4Khi0JtkOoA3bcDcUACGJuISH5S"
  isActive := true
  isAdmin := false

def sampleRawTokens : List String :=
  ["7CCzmPrrFxqh3eJTqUpGY16Do77J77iC0rUGErYz4iLUxRDtpFPy4Raxx9bRAKaC",
    "CUiW5hY9huz-xIWqZZVNMnJbmagXDf81lBdALfg5SDnEzZI5ait6zl-rSOOY_6vQ",
    "etzrKzNzwbuSqZTI-S1sr_8zB5virnsGjFrJ7R1jis1-L8HLu-mpbmhScHqLFb7l"]

def sampleAuthEnv (k : ℕ) : AuthEnv where
  now i := 63839664000000000 + 1000000 * k + i
  uuid4 := 10 + k
  rawToken := sampleRawTokens.getD k ""
  salt := k
  createdAt := 63839664000000000 + 1000000 * k

/-- A database with one user and no tokens. -/
def sampleAccounts : Store Db :=
  ⟨{ emptyDb with accounts := { AccountStore.empty with users := ⟨[sampleUser], by decide⟩ } }, 1⟩

end NexusEngine.AuthLifecycle
