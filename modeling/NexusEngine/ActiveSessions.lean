import NexusEngine.AuthLifecycle
import NexusEngine.RankedRows

/-!
# Active sessions

A user's sessions are listed while their tokens expire after the present instant, and a token is
redeemed unless it has expired before it. The two differ at the instant of the expiry alone.
-/

namespace NexusEngine.ActiveSessions

open TransactionalRequests CalendarTime StoredColumns KeyedTables AccountTables Database
  AuthService AuthLifecycle RankedRows

/-- `before` is the order in which the database returns tokens that were created at once. -/
def listActiveSessions (before : Uuid → Uuid → Bool) (now : Instant) (user : User) :
    Service (List RefreshToken) := do
  let tokens ← Request.select fun db =>
    fromLargest RefreshToken.createdAt ((db.accounts.refreshTokens.scan before).filter fun t =>
      t.userId = user.id ∧ t.revokedAt = none ∧ now < t.expiresAt)
  return tokens

/-- The token is among the sessions that are listed. -/
def Listed (before : Uuid → Uuid → Bool) (db : Db) (n : ℕ) (now : Instant) (user : User)
    (t : RefreshToken) : Prop :=
  ∃ sessions, ((listActiveSessions before now user).serial postgres db db n).result =
    .ok sessions ∧ t ∈ sessions

/-- A request to redeem a token returns the user. -/
def Redeems (crypto : AuthCrypto) (env : AuthEnv) (rawToken : String) (db : Db) (n : ℕ)
    (user : User) : Prop :=
  ((redeemRefreshToken crypto env rawToken).serial postgres db db n).result = .ok (some user)

section

variable {crypto : AuthCrypto} {env : AuthEnv} {before : Uuid → Uuid → Bool} {db : Db} {n : ℕ}
  {now : Instant} {user : User} {t : RefreshToken} {rawToken : String}

theorem listed_iff (ht : t ∈ db.accounts.refreshTokens.rows) (howner : t.userId = user.id) :
    Listed before db n now user t ↔ t.revokedAt = none ∧ now < t.expiresAt := by
  have hresult : ((listActiveSessions before now user).serial postgres db db n).result =
      .ok (fromLargest RefreshToken.createdAt ((db.accounts.refreshTokens.scan before).filter
        fun t => t.userId = user.id ∧ t.revokedAt = none ∧ now < t.expiresAt)) := rfl
  have hmem : t ∈ db.accounts.refreshTokens.scan before := Table.mem_scan.mpr ht
  rw [Listed, hresult]
  constructor
  · rintro ⟨sessions, hok, hsession⟩
    cases hok
    rw [mem_fromLargest, List.mem_filter, decide_eq_true_eq] at hsession
    exact hsession.2.2
  · intro hactive
    refine ⟨_, rfl, ?_⟩
    rw [mem_fromLargest, List.mem_filter, decide_eq_true_eq]
    exact ⟨hmem, howner, hactive⟩

/-- The hash of a token finds it. -/
theorem tokenOf_eq (hunique : UniqueHashes db.accounts) (ht : t ∈ db.accounts.refreshTokens.rows)
    (hraw : crypto.hashRefreshToken rawToken = t.tokenHash) :
    tokenOf crypto db.accounts rawToken = some t := by
  cases hfound : tokenOf crypto db.accounts rawToken with
  | none =>
    have hnone := List.find?_eq_none.mp hfound t ht
    simp [hraw] at hnone
  | some t' =>
    have hhash : t'.tokenHash = crypto.hashRefreshToken rawToken := by
      simpa using List.find?_some hfound
    have ht' : t' ∈ db.accounts.refreshTokens.rows := List.mem_of_find?_eq_some hfound
    rw [List.inj_on_of_nodup_map hunique ht' ht (hhash.trans hraw)]

theorem redeems_iff (hunique : UniqueHashes db.accounts)
    (huser : user ∈ db.accounts.users.rows) (hactive : user.isActive = true)
    (ht : t ∈ db.accounts.refreshTokens.rows) (howner : t.userId = user.id)
    (hraw : crypto.hashRefreshToken rawToken = t.tokenHash) :
    Redeems crypto env rawToken db n user ↔ t.revokedAt = none ∧ env.now 0 ≤ t.expiresAt := by
  have hanswer : (redeemRefreshToken crypto env rawToken).wp postgres (fun result _ _ _ =>
      result = .ok (some user) ↔ t.revokedAt = none ∧ env.now 0 ≤ t.expiresAt) db db n := by
    apply (Request.wp_bind ..).mpr
    apply tokenByHash_wp
    · intro hrepeated
      exact absurd hunique hrepeated
    rw [tokenOf_eq hunique ht hraw]
    dsimp only
    cases hredeemable : redeemable (env.now 0) (some t) with
    | none =>
      apply Request.wp_return
      constructor
      · intro heq
        cases heq
      · rintro ⟨hrevoked, hfuture⟩
        have hsome := redeemable_eq_some.mpr ⟨rfl, hrevoked, hfuture⟩
        rw [hredeemable] at hsome
        cases hsome
    | some t' =>
      obtain ⟨hsame, hrevoked, hfuture⟩ := redeemable_eq_some.mp hredeemable
      cases hsame
      have hfound : db.accounts.users.find? t.userId = some user := by
        rw [howner]
        exact Table.find?_of_mem huser
      apply (Request.wp_bind ..).mpr
      rw [Request.wp_select]
      apply send_revoke_wp ht
      intro accounts _ _
      apply Request.wp_commitTransaction_bind
      apply Request.wp_return
      simp [hfound, hactive, hrevoked, hfuture]
  exact (Request.serial_sound hanswer).elim fun _ h => h

/-- The list of sessions and the redemption agree about a token exactly where it is revoked or
expires at another instant than the present one. -/
theorem listed_iff_redeems_iff (crypto : AuthCrypto) (env : AuthEnv)
    (before : Uuid → Uuid → Bool) (db : Db) (n : ℕ) (user : User) (t : RefreshToken)
    (rawToken : String) (hunique : UniqueHashes db.accounts)
    (huser : user ∈ db.accounts.users.rows) (hactive : user.isActive = true)
    (ht : t ∈ db.accounts.refreshTokens.rows) (howner : t.userId = user.id)
    (hraw : crypto.hashRefreshToken rawToken = t.tokenHash) :
    (Listed before db n (env.now 0) user t ↔ Redeems crypto env rawToken db n user) ↔
      t.revokedAt ≠ none ∨ t.expiresAt ≠ env.now 0 := by
  rw [listed_iff ht howner, redeems_iff hunique huser hactive ht howner hraw]
  by_cases hrevoked : t.revokedAt = none
  · simp only [hrevoked, true_and, ne_eq, not_true_eq_false, false_or]
    constructor
    · intro hagree heq
      exact absurd (hagree.mpr heq.ge) (heq ▸ lt_irrefl _)
    · intro hne
      constructor
      · exact fun hlt => hlt.le
      · exact fun hle => lt_of_le_of_ne hle (Ne.symm hne)
  · simp [hrevoked]

end

/-! ## The instant of the expiry -/

def sampleToken : RefreshToken :=
  sampleAuthCrypto.refreshToken sampleSettings (sampleAuthEnv 0) sampleUser

def sampleSessions : Db :=
  { emptyDb with
    accounts := { AccountStore.empty with
      users := .singleton sampleUser
      refreshTokens := .singleton sampleToken } }

theorem listed_iff_redeems_sample :
    UniqueHashes sampleSessions.accounts ∧
      sampleAuthCrypto.hashRefreshToken (sampleAuthEnv 0).rawToken = sampleToken.tokenHash ∧
      (Listed (fun _ _ => true) sampleSessions 1 ((sampleAuthEnv 1).now 0) sampleUser sampleToken ↔
        Redeems sampleAuthCrypto (sampleAuthEnv 1) (sampleAuthEnv 0).rawToken sampleSessions 1
          sampleUser) := by
  have hunique : UniqueHashes sampleSessions.accounts := List.nodup_singleton _
  refine ⟨hunique, rfl, (listed_iff_redeems_iff _ _ _ sampleSessions 1 sampleUser sampleToken _
    hunique List.mem_cons_self rfl List.mem_cons_self rfl rfl).mpr (.inr ?_)⟩
  decide +kernel

/-- At the instant of its expiry a token is redeemed that is not listed. -/
theorem expiring_token_redeemed :
    ¬ ∀ (crypto : AuthCrypto) (env : AuthEnv) (before : Uuid → Uuid → Bool) (db : Db) (n : ℕ)
      (user : User) (t : RefreshToken) (rawToken : String), UniqueHashes db.accounts →
      user ∈ db.accounts.users.rows → user.isActive = true →
      t ∈ db.accounts.refreshTokens.rows → t.userId = user.id →
      crypto.hashRefreshToken rawToken = t.tokenHash →
        (Listed before db n (env.now 0) user t ↔ Redeems crypto env rawToken db n user) := by
  intro h
  let env : AuthEnv := { sampleAuthEnv 1 with now := fun _ => sampleToken.expiresAt }
  have hunique : UniqueHashes sampleSessions.accounts := List.nodup_singleton _
  have hagree := h sampleAuthCrypto env (fun _ _ => true) sampleSessions 1 sampleUser sampleToken
    (sampleAuthEnv 0).rawToken hunique List.mem_cons_self rfl List.mem_cons_self rfl rfl
  rw [listed_iff List.mem_cons_self rfl,
    redeems_iff hunique List.mem_cons_self rfl List.mem_cons_self rfl rfl] at hagree
  exact absurd (hagree.mpr ⟨rfl, le_rfl⟩).2 (lt_irrefl _)

end NexusEngine.ActiveSessions
