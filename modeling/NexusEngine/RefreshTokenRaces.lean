import NexusEngine.AuthLifecycle

/-!
# Concurrent presentations of one refresh token

Sessions redeem one raw token under read committed. Each of them reads the row, revokes it and
commits, and nothing but the read keeps two of them from accepting it: the token is used once
where every commit finds it not yet revoked.
-/

namespace NexusEngine.RefreshTokenRaces

open TransactionalRequests ReadCommittedSessions StoredColumns KeyedTables AccountTables Database
  AuthService AuthLifecycle

/-! ## The points of a redemption -/

/-- Where a session stands that redeems a token and goes on with `k`, and the token it holds. -/
inductive RedeemPoint {β : Type} (crypto : AuthCrypto) (env : AuthEnv) (rawToken : String)
    (k : Option User → Service β) :
    Option RefreshToken → Session Db Statement ServiceError β → Prop where
  | start : RedeemPoint crypto env rawToken k none ⟨[], redeemRefreshToken crypto env rawToken >>= k⟩
  | found (t : RefreshToken) :
      RedeemPoint crypto env rawToken k (some t) ⟨[], rotate env t >>= k⟩
  | loaded (t : RefreshToken) (user : Option User) (own : ∀ u ∈ user, u.id = t.userId) :
      RedeemPoint crypto env rawToken k (some t)
        ⟨[], .flush (fun _ => [.account (.updateRefreshToken t.id (env.now 1))])
          (.commit (k (user.filter User.isActive)))⟩
  | flushed (t : RefreshToken) (user : Option User) (own : ∀ u ∈ user, u.id = t.userId) :
      RedeemPoint crypto env rawToken k (some t)
        ⟨[.account (.updateRefreshToken t.id (env.now 1))],
          .commit (k (user.filter User.isActive))⟩

/-- The only row of the raw token. -/
def OnlyRow (crypto : AuthCrypto) (db : Db) (rawToken : String) (t : RefreshToken) : Prop :=
  (db.accounts.refreshTokens.rows.filter fun r =>
    r.tokenHash = crypto.hashRefreshToken rawToken) = [t]

section

variable {β : Type} {crypto : AuthCrypto} {env : AuthEnv} {rawToken : String}
  {k : Option User → Service β}

/-- After the query for the token. -/
def tokenRead (env : AuthEnv) (token : Option RefreshToken) : Service (Option User) :=
  match redeemable (env.now 0) token with
  | none => return none
  | some token => rotate env token

theorem redeem_eq : (redeemRefreshToken crypto env rawToken >>= k) = .query fun db =>
    (scalarOneOrNone (db.accounts.refreshTokens.rows.filter fun t =>
      t.tokenHash = crypto.hashRefreshToken rawToken) >>= tokenRead env) >>= k := rfl

theorem rotate_eq {t : RefreshToken} : (rotate env t >>= k) = .query fun db =>
    .flush (fun _ => [.account (.updateRefreshToken t.id (env.now 1))])
      (.commit (k ((db.accounts.users.find? t.userId).filter User.isActive))) := rfl

/-- A query of a redemption finds the token good, finds it not good, or reads its user. -/
theorem RedeemPoint.query {o : Option RefreshToken} {pending : List Statement}
    {next : Db → Service β} (h : RedeemPoint crypto env rawToken k o ⟨pending, .query next⟩)
    (view : Db) :
    pending = [] ∧ ((∃ e, next view = .raise e) ∨ next view = k none ∨
      (∃ t, OnlyRow crypto view rawToken t ∧ t.revokedAt = none ∧
        RedeemPoint crypto env rawToken k (some t) ⟨[], next view⟩) ∨
      RedeemPoint crypto env rawToken k o ⟨[], next view⟩) := by
  generalize hs : (⟨pending, .query next⟩ : Session Db Statement ServiceError β) = s at h
  cases h with
  | start =>
    obtain ⟨hpending, hprogram⟩ := Session.mk.inj hs
    refine ⟨hpending, ?_⟩
    rw [redeem_eq] at hprogram
    obtain rfl := Request.query.inj hprogram
    dsimp only
    generalize hrows : (view.accounts.refreshTokens.rows.filter fun t =>
      decide (t.tokenHash = crypto.hashRefreshToken rawToken)) = rows
    match rows, hrows with
    | [], _ => exact .inr (.inl rfl)
    | [t], hrows =>
      cases hgood : redeemable (env.now 0) (some t) with
      | none =>
        refine .inr (.inl ?_)
        simp [scalarOneOrNone, tokenRead, hgood]
      | some r =>
        obtain ⟨heq, hactive, -⟩ := redeemable_eq_some.mp hgood
        obtain rfl : t = r := Option.some.inj heq
        refine .inr (.inr (.inl ⟨t, hrows, hactive, ?_⟩))
        simp only [scalarOneOrNone, tokenRead, hgood, Request.pure_eq, Request.done_bind]
        exact .found t
    | _ :: _ :: _, _ => exact .inl ⟨.exception, rfl⟩
  | found t =>
    obtain ⟨hpending, hprogram⟩ := Session.mk.inj hs
    refine ⟨hpending, ?_⟩
    rw [rotate_eq] at hprogram
    obtain rfl := Request.query.inj hprogram
    refine .inr (.inr (.inr (.loaded t _ fun u hu => ?_)))
    exact (Table.find?_eq_some.mp hu).2
  | loaded t user own => nomatch (Session.mk.inj hs).2
  | flushed t user own => nomatch (Session.mk.inj hs).2

theorem RedeemPoint.flush {o : Option RefreshToken} {pending : List Statement}
    {statements : ℕ → List Statement} {next : Service β}
    (h : RedeemPoint crypto env rawToken k o ⟨pending, .flush statements next⟩) (n : ℕ) :
    RedeemPoint crypto env rawToken k o ⟨pending ++ statements n, next⟩ := by
  generalize hs : (⟨pending, .flush statements next⟩ : Session Db Statement ServiceError β) = s at h
  cases h with
  | start => nomatch (Session.mk.inj hs).2
  | found t => nomatch (Session.mk.inj hs).2
  | loaded t user own =>
    obtain ⟨rfl, hprogram⟩ := Session.mk.inj hs
    obtain ⟨rfl, rfl⟩ := Request.flush.inj hprogram
    exact .flushed t user own
  | flushed t user own => nomatch (Session.mk.inj hs).2

/-- A commit revokes the token that is held, and goes on with its user. -/
theorem RedeemPoint.commit {o : Option RefreshToken} {pending : List Statement} {next : Service β}
    (h : RedeemPoint crypto env rawToken k o ⟨pending, .commit next⟩) :
    ∃ (t : RefreshToken) (user : Option User), o = some t ∧
      pending = [.account (.updateRefreshToken t.id (env.now 1))] ∧
      next = k (user.filter User.isActive) ∧ ∀ u ∈ user, u.id = t.userId := by
  generalize hs : (⟨pending, .commit next⟩ : Session Db Statement ServiceError β) = s at h
  cases h with
  | start => nomatch (Session.mk.inj hs).2
  | found t => nomatch (Session.mk.inj hs).2
  | loaded t user own => nomatch (Session.mk.inj hs).2
  | flushed t user own =>
    obtain ⟨rfl, hprogram⟩ := Session.mk.inj hs
    exact ⟨t, user, rfl, rfl, Request.commit.inj hprogram, own⟩

end

/-! ## One token -/

/-- The session has returned a user. -/
def Accepted (σ : Server Db Statement ServiceError (Option User)) (i : ℕ) : Prop :=
  ∃ pending u, σ.sessions[i]? = some ⟨pending, .done (some u)⟩

/-- A commit revokes no token that is revoked already. -/
def NotYetRevoked (committed : Db) (ws : List Statement) : Prop :=
  ∀ id now, .account (.updateRefreshToken id now) ∈ ws →
    ∀ t ∈ committed.accounts.refreshTokens.rows, t.id = id → t.revokedAt = none

/-- The rows that a raw token finds. -/
def idsOf (crypto : AuthCrypto) (db : Db) (rawToken : String) : List Uuid :=
  (db.accounts.refreshTokens.rows.filter fun t =>
    t.tokenHash = crypto.hashRefreshToken rawToken).map RefreshToken.id

inductive Standing (crypto : AuthCrypto) (rawToken : String) (ids : List Uuid) :
    Session Db Statement ServiceError (Option User) → Prop where
  | redeeming {s} (env : AuthEnv) (o : Option RefreshToken)
      (point : RedeemPoint crypto env rawToken (fun user => .done user) o s)
      (row : ∀ t ∈ o, ids = [t.id]) : Standing crypto rawToken ids s
  | ended (user : Option User) : Standing crypto rawToken ids ⟨[], .done user⟩
  | failed (error : ServiceError) : Standing crypto rawToken ids ⟨[], .raise error⟩

/-- One session at most has returned a user, and by then the row is revoked. -/
structure OnceInv (crypto : AuthCrypto) (rawToken : String) (ids : List Uuid)
    (σ : Server Db Statement ServiceError (Option User)) : Prop where
  rows : idsOf crypto σ.committed rawToken = ids
  standing : ∀ s ∈ σ.sessions, Standing crypto rawToken ids s
  revoked : ∀ i, Accepted σ i → ∃ id, ids = [id] ∧
    ∀ t ∈ σ.committed.accounts.refreshTokens.rows, t.id = id → t.revokedAt ≠ none
  once : ∀ i j, Accepted σ i → Accepted σ j → i = j

section

variable {crypto : AuthCrypto} {rawToken : String} {ids : List Uuid}
  {σ : Server Db Statement ServiceError (Option User)} {i j : ℕ}

theorem accepted_setSession {s : Session Db Statement ServiceError (Option User)} {db : Db} {n : ℕ}
    (h : Accepted ⟨db, n, σ.sessions.set i s⟩ j) :
    Accepted σ j ∨ j = i ∧ ∃ u, s.program = .done (some u) := by
  obtain ⟨pending, u, hj⟩ := h
  by_cases hij : j = i
  · subst hij
    have hmem : s = ⟨pending, .done (some u)⟩ := by
      rw [List.getElem?_set_self'] at hj
      obtain ⟨_, -, rfl⟩ := Option.map_eq_some_iff.mp hj
      rfl
    exact .inr ⟨rfl, u, by rw [hmem]⟩
  · rw [List.getElem?_set_ne (Ne.symm hij)] at hj
    exact .inl ⟨pending, u, hj⟩

theorem RedeemPoint.not_done {env : AuthEnv} {k : Option User → Service (Option User)}
    {o : Option RefreshToken} {pending : List Statement} {user : Option User}
    (h : RedeemPoint crypto env rawToken k o ⟨pending, .done user⟩) : False := by
  generalize hs : (⟨pending, .done user⟩ : Session Db Statement ServiceError (Option User)) = s at h
  cases h <;> nomatch (Session.mk.inj hs).2

/-- A step that commits nothing and returns no user. -/
theorem OnceInv.stay (h : OnceInv crypto rawToken ids σ)
    {s : Session Db Statement ServiceError (Option User)} {n : ℕ}
    (standing : Standing crypto rawToken ids s) (quiet : ∀ u, s.program ≠ .done (some u)) :
    OnceInv crypto rawToken ids ⟨σ.committed, n, σ.sessions.set i s⟩ := by
  obtain ⟨hids, hstanding, hrevoked, honce⟩ := h
  have hold : ∀ j, Accepted ⟨σ.committed, n, σ.sessions.set i s⟩ j → Accepted σ j := by
    intro j hj
    rcases accepted_setSession hj with hj | ⟨-, u, hu⟩
    · exact hj
    · exact absurd hu (quiet u)
  exact ⟨hids, Server.forall_setSession (i := i) hstanding standing,
    fun j hj => hrevoked j (hold j hj), fun j j' hj hj' => honce j j' (hold j hj) (hold j' hj')⟩

theorem idsOf_revoke (crypto : AuthCrypto) (rawToken : String) {db view : Db} {id : Uuid}
    {now : CalendarTime.Instant}
    (h : postgres.applyAll [.account (.updateRefreshToken id now)] db = some view) :
    (∃ t ∈ db.accounts.refreshTokens.rows, t.id = id) ∧
      idsOf crypto view rawToken = idsOf crypto db rawToken ∧
      ∀ t ∈ view.accounts.refreshTokens.rows, t.id = id → t.revokedAt ≠ none := by
  obtain ⟨accounts, happly, rfl⟩ := applyAll_account_singleton h
  obtain ⟨⟨t, ht⟩, -, hrows⟩ := updateRefreshToken_eq_some.mp happly
  refine ⟨⟨t, Table.find?_eq_some.mp ht⟩, ?_, fun r hr hid hnone => ?_⟩
  · simp only [idsOf, hrows, revokeWhere, List.filter_map, List.map_map]
    congr 1
    · funext r
      simp only [Function.comp]
      split <;> rfl
    · congr 1
      funext r
      simp only [Function.comp]
      split <;> rfl
  · rw [hrows, mem_revokeWhere hnone] at hr
    exact hr.2 hid

/-- The step lemma. -/
theorem OnceInv.step {σ' : Server Db Statement ServiceError (Option User)} {a : Action}
    (h : OnceInv crypto rawToken ids σ) (move : σ.step postgres a = some σ')
    (meets : ∀ ws, σ.committing a = some ws → NotYetRevoked σ.committed ws) :
    OnceInv crypto rawToken ids σ' := by
  obtain ⟨i, ⟨pending, program⟩, hs, effect⟩ := Server.step_effect move
  have hstanding := h.standing _ (List.mem_of_getElem? hs)
  cases effect with
  | dropped error sequence _ => exact h.stay (.failed error) fun _ heq => nomatch heq
  | moved next view hprogram accepted =>
    subst hprogram
    cases hstanding with
    | redeeming env o point row =>
      obtain ⟨rfl, hcases⟩ := point.query view
      cases accepted
      rcases hcases with ⟨e, heq⟩ | heq | ⟨t, hrow, -, hpoint⟩ | hpoint
      · rw [heq]
        exact h.stay (.failed e) fun _ heq => nomatch heq
      · rw [heq]
        exact h.stay (.ended none) fun _ heq => nomatch heq
      · refine h.stay (.redeeming env _ hpoint fun t' ht' => ?_) fun u heq => ?_
        · obtain rfl := Option.mem_some_iff.mp ht'
          rw [← h.rows, idsOf, hrow]
          rfl
        · dsimp only at heq
          rw [heq] at hpoint
          exact hpoint.not_done
      · refine h.stay (.redeeming env _ hpoint row) fun u heq => ?_
        dsimp only at heq
        rw [heq] at hpoint
        exact hpoint.not_done
  | flushed statements next view hprogram _ _ =>
    subst hprogram
    cases hstanding with
    | redeeming env o point row =>
      have hpoint := point.flush σ.sequence
      refine h.stay (.redeeming env _ hpoint row) fun u heq => ?_
      dsimp only at heq
      rw [heq] at hpoint
      exact hpoint.not_done
  | committed next view hprogram commits accepted =>
    subst hprogram
    cases hstanding with
    | redeeming env o point row =>
      obtain ⟨t, user, rfl, rfl, rfl, -⟩ := point.commit
      have hrow : ids = [t.id] := row t rfl
      obtain ⟨⟨r, hr, hid⟩, hids, hrevoked⟩ := idsOf_revoke crypto rawToken accepted
      -- the row was not revoked, so that nobody has returned a user yet
      have hactive := meets _ commits t.id (env.now 1) List.mem_cons_self r hr hid
      have hnobody : ∀ j, ¬ Accepted σ j := by
        intro j hj
        obtain ⟨id, hid', hused⟩ := h.revoked j hj
        obtain rfl : t.id = id := by simpa [hrow] using hid'
        exact hused r hr hid hactive
      have honly : ∀ j, Accepted
          ⟨view, σ.sequence, σ.sessions.set i ⟨[], .done (user.filter User.isActive)⟩⟩ j →
          j = i := by
        intro j hj
        rcases accepted_setSession hj with hj | ⟨hj, -⟩
        · exact absurd hj (hnobody j)
        · exact hj
      exact ⟨hids.trans h.rows, Server.forall_setSession h.standing (.ended _),
        fun _ _ => ⟨t.id, hrow, hrevoked⟩,
        fun j j' hj hj' => (honly j hj).trans (honly j' hj').symm⟩

end

/-- At most one of the sessions that present a token returns a user, if no commit revokes a token
that is revoked already. -/
theorem redeemed_once (crypto : AuthCrypto) (rawToken : String) (db : Db) (n : ℕ)
    (envs : List AuthEnv) {σ : Server Db Statement ServiceError (Option User)}
    (run : Server.Reaches postgres NotYetRevoked
      (start db n (envs.map fun env => redeemRefreshToken crypto env rawToken)) σ) {i j : ℕ}
    (hi : Accepted σ i) (hj : Accepted σ j) : i = j := by
  have hinv : OnceInv crypto rawToken (idsOf crypto db rawToken) σ := by
    clear hi hj
    induction run with
    | refl =>
      have hstart : ∀ s ∈ (start db n (envs.map fun env =>
          redeemRefreshToken crypto env rawToken)).sessions,
          ∃ env, s = ⟨[], redeemRefreshToken crypto env rawToken⟩ := by
        intro s hs
        simp only [start, List.map_map, List.mem_map, Function.comp] at hs
        obtain ⟨env, -, rfl⟩ := hs
        exact ⟨env, rfl⟩
      have hnobody : ∀ i, ¬ Accepted (start db n (envs.map fun env =>
          redeemRefreshToken crypto env rawToken)) i := by
        rintro i ⟨pending, u, hi⟩
        obtain ⟨env, heq⟩ := hstart _ (List.mem_of_getElem? hi)
        nomatch (Session.mk.inj heq).2
      refine ⟨rfl, fun s hs => ?_, fun i hi => absurd hi (hnobody i),
        fun i j hi => absurd hi (hnobody i)⟩
      obtain ⟨env, rfl⟩ := hstart s hs
      refine .redeeming env none ?_ fun t ht => nomatch ht
      have hpoint : RedeemPoint crypto env rawToken (fun user => .done user) none
          ⟨[], redeemRefreshToken crypto env rawToken >>= fun user => .done user⟩ := .start
      rwa [Request.bind_done] at hpoint
    | step _ move meets ih => exact ih.step move meets
  exact hinv.once i j hi hj

/-! ## Two presentations of one token -/

/-- The sample user holds one refresh token. -/
def sampleSession : Db :=
  (execAll sampleAuthCrypto sampleSettings sampleAccounts [.issue (sampleAuthEnv 0) sampleUser]).db

def sampleStart : Server Db Statement ServiceError (Option User) :=
  start sampleSession 1 ([sampleAuthEnv 1, sampleAuthEnv 2].map fun env =>
    redeemRefreshToken sampleAuthCrypto env (sampleAuthEnv 0).rawToken)

/-- One presentation after the other. -/
def oneByOne : List Action := List.replicate 4 (.run 0) ++ [.run 1]

/-- Both have read the token before one of them revokes it. -/
def interleaved : List Action :=
  .run 0 :: .run 1 :: (List.replicate 3 (.run 0) ++ List.replicate 3 (.run 1))

def returned (s : Session Db Statement ServiceError (Option User)) : Option User :=
  match s.program with
  | .done user => user
  | _ => none

theorem accepted_of_returned {σ : Server Db Statement ServiceError (Option User)} {i : ℕ} {u : User}
    (h : (σ.sessions[i]?.bind returned) = some u) : Accepted σ i := by
  obtain ⟨⟨pending, program⟩, hs, hu⟩ := Option.bind_eq_some_iff.mp h
  cases program with
  | done user =>
    obtain rfl : user = some u := hu
    exact ⟨pending, u, hs⟩
  | _ => nomatch hu

def notYetRevoked (committed : Db) (ws : List Statement) : Bool :=
  ws.all fun
    | .account (.updateRefreshToken id _) => committed.accounts.refreshTokens.rows.all fun t =>
      t.id != id || t.revokedAt.isNone
    | _ => true

theorem notYetRevoked_sound (committed : Db) (ws : List Statement)
    (h : notYetRevoked committed ws = true) : NotYetRevoked committed ws := by
  intro id now hmem t ht hid
  have hall := List.all_eq_true.mp (List.all_eq_true.mp h _ hmem) t ht
  simpa [hid] using hall

theorem redeemed_once_sample :
    ∃ σ, Server.run postgres notYetRevoked sampleStart oneByOne = some σ ∧ Accepted σ 0 ∧
      ∀ j, Accepted σ j → j = 0 := by
  have hrun : ((Server.run postgres notYetRevoked sampleStart oneByOne).bind fun σ =>
      σ.sessions[0]?.bind returned) = some sampleUser := by decide +kernel
  obtain ⟨σ, hσ, hreturned⟩ := Option.bind_eq_some_iff.mp hrun
  refine ⟨σ, hσ, accepted_of_returned hreturned, fun j hj => ?_⟩
  exact redeemed_once sampleAuthCrypto (sampleAuthEnv 0).rawToken sampleSession 1
    [sampleAuthEnv 1, sampleAuthEnv 2] (Server.Reaches.of_run notYetRevoked_sound .refl hσ) hj
    (accepted_of_returned hreturned)

/-- Two sessions return a user for one token. -/
theorem redeemed_twice :
    ∃ σ, Server.Reaches postgres (fun _ _ => True) sampleStart σ ∧ Accepted σ 0 ∧ Accepted σ 1 := by
  have hrun : ((Server.run postgres (fun _ _ => true) sampleStart interleaved).map fun σ =>
      (σ.sessions[0]?.bind returned, σ.sessions[1]?.bind returned)) =
      some (some sampleUser, some sampleUser) := by decide +kernel
  obtain ⟨σ, hσ, hreturned⟩ := Option.map_eq_some_iff.mp hrun
  obtain ⟨hfirst, hsecond⟩ := Prod.mk.inj hreturned
  exact ⟨σ, Server.Reaches.of_run (fun _ _ _ => trivial) .refl hσ, accepted_of_returned hfirst,
    accepted_of_returned hsecond⟩

end NexusEngine.RefreshTokenRaces
