import NexusEngine.RefreshTokenRaces

/-!
# Refreshes that overlap a change of the password

A refresh redeems a token in one transaction and issues the next one in another, while a change of
the password revokes the tokens it sees. A chain of refreshes survives the change where it has a
token in hand at that moment, and not otherwise.
-/

namespace NexusEngine.PasswordChangeRaces

open TransactionalRequests ReadCommittedSessions CalendarTime StoredColumns KeyedTables
  AccountTables Database AuthService AuthLifecycle RefreshTokenRaces

inductive SessionRequest where
  | refresh (env env' : AuthEnv) (rawToken : String)
  | changePassword (env : AuthEnv) (userId : Uuid) (currentPassword newPassword : String)
  | resetPassword (env : AuthEnv) (rawToken newPassword : String)

/-- The request, without its response. -/
def SessionRequest.request (crypto : AuthCrypto) (settings : AuthSettings) :
    SessionRequest → Service Unit
  | refresh env env' rawToken => do
    let _ ← AuthService.refresh crypto settings env env' rawToken
    return ()
  | changePassword env userId currentPassword newPassword =>
    changeOwnPassword crypto env userId currentPassword newPassword
  | resetPassword env rawToken newPassword => do
    let _ ← AuthService.resetPassword crypto env rawToken newPassword
    return ()

/-- What a refresh does after the redemption. -/
def afterRedeem (crypto : AuthCrypto) (settings : AuthSettings) (env : AuthEnv)
    (user : Option User) : Service Unit := do
  let _ ← issueNext crypto settings env user
  return ()

/-- The points of a refresh, and the user whose token the session has in hand: one that it has
read and found good, or the next one that it is about to issue. -/
inductive RefreshPoint (crypto : AuthCrypto) (settings : AuthSettings) :
    Option Uuid → Session Db Statement ServiceError Unit → Prop where
  | redeeming {s} (env env' : AuthEnv) (rawToken : String) (o : Option RefreshToken)
      (point : RedeemPoint crypto env rawToken (afterRedeem crypto settings env') o s) :
      RefreshPoint crypto settings (o.map RefreshToken.userId) s
  | issuing (env' : AuthEnv) (user : User) :
      RefreshPoint crypto settings (some user.id) ⟨[], afterRedeem crypto settings env' (some user)⟩
  | inserted (env' : AuthEnv) (user : User) :
      RefreshPoint crypto settings (some user.id)
        ⟨[.account (.insertRefreshToken (crypto.refreshToken settings env' user))],
          .commit (.done ())⟩
  | ended : RefreshPoint crypto settings none ⟨[], .done ()⟩
  | failed (error : ServiceError) : RefreshPoint crypto settings none ⟨[], .raise error⟩

/-! ## Refreshes step by step -/

section

variable {crypto : AuthCrypto} {settings : AuthSettings} {o : Option Uuid}
  {pending : List Statement}

theorem afterRedeem_some (env' : AuthEnv) (user : User) :
    afterRedeem crypto settings env' (some user) =
      .flush (fun _ => [.account (.insertRefreshToken (crypto.refreshToken settings env' user))])
        (.commit (.done ())) := rfl

/-- A query takes a token in hand only if it finds it good. -/
theorem RefreshPoint.query {next : Db → Service Unit}
    (h : RefreshPoint crypto settings o ⟨pending, .query next⟩) (view : Db) :
    pending = [] ∧ ∃ o', RefreshPoint crypto settings o' ⟨[], next view⟩ ∧
      (o' = none ∨ o' = o ∨
        ∃ t ∈ view.accounts.refreshTokens.rows, t.revokedAt = none ∧ o' = some t.userId) := by
  generalize hs : (⟨pending, .query next⟩ : Session Db Statement ServiceError Unit) = s at h
  cases h with
  | redeeming env env' rawToken o point =>
    subst hs
    obtain ⟨hpending, hcases⟩ := point.query view
    refine ⟨hpending, ?_⟩
    rcases hcases with ⟨e, heq⟩ | heq | ⟨t, hrow, hactive, hpoint⟩ | hpoint
    · rw [heq]
      exact ⟨none, .failed e, .inl rfl⟩
    · rw [heq]
      exact ⟨none, .failed _, .inl rfl⟩
    · have ht : t ∈ view.accounts.refreshTokens.rows := by
        have hmem : t ∈ [t] := List.mem_cons_self
        rw [← hrow] at hmem
        exact List.mem_of_mem_filter hmem
      exact ⟨_, .redeeming env env' rawToken _ hpoint, .inr (.inr ⟨t, ht, hactive, rfl⟩)⟩
    · exact ⟨_, .redeeming env env' rawToken _ hpoint, .inr (.inl rfl)⟩
  | issuing env' user => nomatch (Session.mk.inj hs).2
  | inserted env' user => nomatch (Session.mk.inj hs).2
  | ended => nomatch (Session.mk.inj hs).2
  | failed error => nomatch (Session.mk.inj hs).2

theorem RefreshPoint.flush {statements : ℕ → List Statement} {next : Service Unit}
    (h : RefreshPoint crypto settings o ⟨pending, .flush statements next⟩) (n : ℕ) :
    RefreshPoint crypto settings o ⟨pending ++ statements n, next⟩ := by
  generalize hs :
    (⟨pending, .flush statements next⟩ : Session Db Statement ServiceError Unit) = s at h
  cases h with
  | redeeming env env' rawToken o point =>
    subst hs
    exact .redeeming env env' rawToken o (point.flush n)
  | issuing env' user =>
    obtain ⟨rfl, hprogram⟩ := Session.mk.inj hs
    rw [afterRedeem_some] at hprogram
    obtain ⟨rfl, rfl⟩ := Request.flush.inj hprogram
    exact .inserted env' user
  | inserted env' user => nomatch (Session.mk.inj hs).2
  | ended => nomatch (Session.mk.inj hs).2
  | failed error => nomatch (Session.mk.inj hs).2

/-- What a commit of a refresh makes durable: the revocation of the token in hand, or the next
token of the user in hand. -/
inductive RefreshCommit (crypto : AuthCrypto) (settings : AuthSettings) (o : Option Uuid) :
    List Statement → Prop where
  | revokes (id : Uuid) (now : Instant) :
      RefreshCommit crypto settings o [.account (.updateRefreshToken id now)]
  | inserts (env' : AuthEnv) (user : User) (holds : o = some user.id) :
      RefreshCommit crypto settings o
        [.account (.insertRefreshToken (crypto.refreshToken settings env' user))]

theorem RefreshPoint.commit {next : Service Unit}
    (h : RefreshPoint crypto settings o ⟨pending, .commit next⟩) :
    RefreshCommit crypto settings o pending ∧
      ∃ o', RefreshPoint crypto settings o' ⟨[], next⟩ ∧ (o' = none ∨ o' = o) := by
  generalize hs : (⟨pending, .commit next⟩ : Session Db Statement ServiceError Unit) = s at h
  cases h with
  | redeeming env env' rawToken o point =>
    subst hs
    obtain ⟨t, user, rfl, rfl, rfl, hown⟩ := point.commit
    refine ⟨.revokes t.id (env.now 1), ?_⟩
    cases huser : user.filter User.isActive with
    | none => exact ⟨none, .failed _, .inl rfl⟩
    | some u =>
      refine ⟨some u.id, .issuing env' u, .inr ?_⟩
      rw [hown u (Option.filter_eq_some_iff.mp huser).1]
      rfl
  | issuing env' user => nomatch (Session.mk.inj hs).2
  | inserted env' user =>
    obtain ⟨rfl, hprogram⟩ := Session.mk.inj hs
    obtain rfl := Request.commit.inj hprogram
    exact ⟨.inserts env' user rfl, none, .ended, .inl rfl⟩
  | ended => nomatch (Session.mk.inj hs).2
  | failed error => nomatch (Session.mk.inj hs).2

/-- A session that is about to issue has its user in hand. -/
theorem RefreshPoint.issuing_inv {env' : AuthEnv} {user : User}
    (h : RefreshPoint crypto settings o ⟨[], afterRedeem crypto settings env' (some user)⟩) :
    o = some user.id := by
  generalize hs : (⟨[], afterRedeem crypto settings env' (some user)⟩ :
    Session Db Statement ServiceError Unit) = s at h
  rw [afterRedeem_some] at hs
  cases h with
  | redeeming env env'' rawToken o point =>
    cases point with
    | start => nomatch (Session.mk.inj hs).2
    | found t => nomatch (Session.mk.inj hs).2
    | loaded t user' own =>
      have hstatements := congrFun (Request.flush.inj (Session.mk.inj hs).2).1 0
      nomatch hstatements
    | flushed t user' own => nomatch (Session.mk.inj hs).2
  | issuing env'' user' =>
    have hstatements := congrFun (Request.flush.inj (Session.mk.inj hs).2).1 0
    simp only [List.cons.injEq, Statement.account.injEq, AccountStatement.insertRefreshToken.injEq,
      and_true] at hstatements
    exact congrArg some (congrArg RefreshToken.userId hstatements).symm
  | inserted env' user => nomatch (Session.mk.inj hs).2
  | ended => nomatch (Session.mk.inj hs).2
  | failed error => nomatch (Session.mk.inj hs).2

end

/-! ## Sessions that set a password -/

def IssuesToken : Statement → Prop
  | .account (.insertRefreshToken _) => True
  | _ => False

abbrev Unrestricted (_ _ : Db) : Prop := True

abbrev IssuesNothing (_ : Db) (_ : List Statement) (_ : ℕ) (ws : List Statement) : Prop :=
  ∀ w ∈ ws, ¬ IssuesToken w

/-- Nothing that the session has sent or is going to send issues a refresh token. -/
structure PasswordPoint (s : Session Db Statement ServiceError Unit) : Prop where
  sent : ∀ w ∈ s.pending, ¬ IssuesToken w
  promise : ∀ db, Guarantees postgres Unrestricted IssuesNothing s.program (fun _ _ _ => True)
    s.pending db

section

variable {crypto : AuthCrypto} {db : Db}

theorem revokeStatements_issue_nothing {now : Instant} {tokens : List RefreshToken} :
    ∀ w ∈ revokeStatements now tokens, ¬ IssuesToken w := by
  intro w hw
  obtain ⟨t, -, rfl⟩ := List.mem_map.mp hw
  exact id

theorem changeOwnPassword_guarantees (env : AuthEnv) (userId : Uuid) (current new : String) :
    Guarantees postgres Unrestricted IssuesNothing (changeOwnPassword crypto env userId current new)
      (fun _ _ _ => True) [] db := by
  refine Guarantees.bind (fun _ => trivial) (Guarantees.select_bind fun _ _ _ _ => ?_)
  rw [← Request.bind_done (found _ _)]
  refine guarantees_found_bind fun user _ => Guarantees.return fun _ _ => ?_
  refine guarantees_found_bind fun _ _ => guarantees_ensure_bind fun _ =>
    guarantees_found_bind fun _ _ => ?_
  refine Guarantees.select_bind fun _ _ _ _ => Guarantees.send_bind fun _ _ _ => ⟨?_, ?_⟩
  · intro w hw
    rcases List.mem_cons.mp hw with rfl | hw
    · exact id
    · exact revokeStatements_issue_nothing w hw
  · rw [← Request.bind_done Request.commitTransaction]
    exact Guarantees.commitTransaction_bind fun _ _ _ _ => Guarantees.return fun _ _ => trivial

theorem scalarOneOrNone_guarantees {α : Type} {rows : List α}
    {post : Option α → List Statement → Db → Prop} {pending : List Statement}
    (h : ∀ row db', post row pending db') :
    Guarantees postgres Unrestricted IssuesNothing (scalarOneOrNone rows) post pending db := by
  cases rows with
  | nil => exact Guarantees.return fun _ _ => h _ _
  | cons first rest =>
    cases rest with
    | nil => exact Guarantees.return fun _ _ => h _ _
    | cons second rest => exact Guarantees.raise

theorem consumeResetToken_guarantees (env : AuthEnv) (t : PasswordResetToken) (new : String) :
    Guarantees postgres Unrestricted IssuesNothing (consumeResetToken crypto env t new)
      (fun _ _ _ => True) [] db := by
  refine Guarantees.select_bind fun _ view _ _ => ?_
  cases (view.accounts.users.find? t.userId).filter User.isActive with
  | none => exact Guarantees.return fun _ _ => trivial
  | some user =>
    refine guarantees_found_bind fun _ _ => Guarantees.select_bind fun _ _ _ _ =>
      Guarantees.send_bind fun _ _ _ => ⟨?_, ?_⟩
    · intro w hw
      rcases List.mem_cons.mp hw with rfl | hw
      · exact id
      · rcases List.mem_cons.mp hw with rfl | hw
        · exact id
        · exact revokeStatements_issue_nothing w hw
    · exact Guarantees.commitTransaction_bind fun _ _ _ _ => Guarantees.return fun _ _ => trivial

theorem resetPassword_guarantees (env : AuthEnv) (rawToken new : String) :
    Guarantees postgres Unrestricted IssuesNothing (resetPassword crypto env rawToken new)
      (fun _ _ _ => True) [] db := by
  refine Guarantees.bind (fun _ => trivial) (Guarantees.select_bind fun _ _ _ _ =>
    scalarOneOrNone_guarantees fun token _ => ?_)
  cases usable (env.now 0) token with
  | none => exact Guarantees.return fun _ _ => trivial
  | some t => exact consumeResetToken_guarantees env t new

end

/-! ## Every session -/

/-- The session refreshes, with a user in hand that `P` admits, or it sets a password. -/
def Stands (crypto : AuthCrypto) (settings : AuthSettings) (P : Option Uuid → Prop)
    (s : Session Db Statement ServiceError Unit) : Prop :=
  (∃ o, RefreshPoint crypto settings o s ∧ P o) ∨ PasswordPoint s

section

variable {crypto : AuthCrypto} {settings : AuthSettings} {P : Option Uuid → Prop}
  {pending : List Statement} {db view : Db}

theorem stands_start (r : SessionRequest) (none : P none) :
    Stands crypto settings P ⟨[], r.request crypto settings⟩ := by
  cases r with
  | refresh env env' rawToken =>
    refine .inl ⟨Option.none, .redeeming env env' rawToken Option.none ?_, none⟩
    have hstart : (SessionRequest.refresh env env' rawToken).request crypto settings =
        redeemRefreshToken crypto env rawToken >>= afterRedeem crypto settings env' :=
      Request.bind_assoc _ _ _
    rw [hstart]
    exact .start
  | changePassword env userId current new =>
    exact .inr ⟨fun _ h => absurd h List.not_mem_nil, fun db => changeOwnPassword_guarantees ..⟩
  | resetPassword env rawToken new =>
    refine .inr ⟨fun _ h => absurd h List.not_mem_nil, fun db => ?_⟩
    exact Guarantees.bind (fun _ => trivial) (Guarantees.mono (fun _ _ _ _ h => h)
      (fun _ _ _ _ => Guarantees.return fun _ _ => trivial) (resetPassword_guarantees ..))

theorem Stands.query {next : Db → Service Unit} (h : Stands crypto settings P ⟨pending, .query next⟩)
    (none : P none)
    (active : ∀ t ∈ db.accounts.refreshTokens.rows, t.revokedAt = Option.none → P (some t.userId))
    (accepted : postgres.applyAll pending db = some view) :
    Stands crypto settings P ⟨pending, next view⟩ := by
  rcases h with ⟨o, hpoint, ho⟩ | hpassword
  · obtain ⟨rfl, o', hpoint', hcases⟩ := hpoint.query view
    cases accepted
    refine .inl ⟨o', hpoint', ?_⟩
    rcases hcases with rfl | rfl | ⟨t, ht, hactive, rfl⟩
    · exact none
    · exact ho
    · exact active t ht hactive
  · refine .inr ⟨hpassword.sent, fun db' => ?_⟩
    exact Guarantees.later (fun _ _ _ _ _ => trivial)
      ((hpassword.promise db).query_step trivial accepted) trivial

theorem Stands.flush {statements : ℕ → List Statement} {next : Service Unit}
    (h : Stands crypto settings P ⟨pending, .flush statements next⟩) (n : ℕ) :
    Stands crypto settings P ⟨pending ++ statements n, next⟩ := by
  rcases h with ⟨o, hpoint, ho⟩ | hpassword
  · exact .inl ⟨o, hpoint.flush n, ho⟩
  · refine .inr ⟨fun w hw => ?_, fun db => ((hpassword.promise db).flush_step trivial n).2⟩
    rcases List.mem_append.mp hw with hw | hw
    · exact hpassword.sent w hw
    · have hsame : Unrestricted emptyDb emptyDb := trivial
      exact ((hpassword.promise emptyDb).flush_step hsame n).1 w hw

theorem Stands.commit {next : Service Unit} (h : Stands crypto settings P ⟨pending, .commit next⟩)
    (none : P none) (accepted : postgres.applyAll pending db = some view) :
    Stands crypto settings P ⟨[], next⟩ := by
  rcases h with ⟨o, hpoint, ho⟩ | hpassword
  · obtain ⟨-, o', hpoint', hcases⟩ := hpoint.commit
    refine .inl ⟨o', hpoint', ?_⟩
    rcases hcases with rfl | rfl
    · exact none
    · exact ho
  · refine .inr ⟨fun _ h => absurd h List.not_mem_nil, fun db' => ?_⟩
    exact Guarantees.later (fun _ _ _ _ _ => trivial)
      ((hpassword.promise db).commit_step trivial accepted) trivial

/-- The step lemma. -/
theorem stands_step {σ σ' : Server Db Statement ServiceError Unit} {a : Action} (none : P none)
    (h : ∀ s ∈ σ.sessions, Stands crypto settings P s)
    (active : ∀ t ∈ σ.committed.accounts.refreshTokens.rows, t.revokedAt = Option.none →
      P (some t.userId)) (move : σ.step postgres a = some σ') :
    ∀ s ∈ σ'.sessions, Stands crypto settings P s := by
  obtain ⟨i, ⟨pending, program⟩, hs, effect⟩ := Server.step_effect move
  have hstands := h _ (List.mem_of_getElem? hs)
  cases effect with
  | dropped error sequence _ =>
    exact Server.forall_setSession h (.inl ⟨Option.none, .failed error, none⟩)
  | moved next view program accepted =>
    subst program
    exact Server.forall_setSession h (hstands.query none active accepted)
  | flushed statements next view program _ _ =>
    subst program
    exact Server.forall_setSession h (hstands.flush _)
  | committed next view program _ accepted =>
    subst program
    exact Server.forall_setSession h (hstands.commit none accepted)

end

/-! ## The tokens of a user -/

section

variable {db db' : Db} {t : RefreshToken}

/-- Only an issued token is active anew. -/
theorem active_of_apply {w : Statement} (h : postgres.apply w db = some db') (hw : ¬ IssuesToken w)
    (ht : t ∈ db'.accounts.refreshTokens.rows) (active : t.revokedAt = none) :
    t ∈ db.accounts.refreshTokens.rows := by
  rcases (apply_frame h).accounts with ⟨st, rfl, hst⟩ | hsame
  · generalize db'.accounts = accounts at hst ht
    cases st with
    | insertUser u =>
      obtain ⟨_, _, _, _, -, -, -, -, -, rfl⟩ := AccountStore.insertUser_eq_some.mp hst
      exact ht
    | updateUser id patch =>
      obtain ⟨_, _, -, -, rfl⟩ := AccountStore.updateUser_eq_some.mp hst
      exact ht
    | updatePassword id hashedPassword =>
      rw [updatePassword_eq_some hst] at ht
      exact ht
    | updateIsActive id isActive =>
      rw [updateIsActive_eq_some hst] at ht
      exact ht
    | insertRefreshToken t' => exact absurd trivial hw
    | updateRefreshToken id now =>
      obtain ⟨-, -, hrows⟩ := updateRefreshToken_eq_some.mp hst
      rw [hrows, mem_revokeWhere active] at ht
      exact ht.1
    | insertPasswordResetToken t' =>
      obtain ⟨_, -, hrest, -⟩ := insertPasswordResetToken_eq_some hst
      rw [hrest] at ht
      exact ht
    | updatePasswordResetToken id now =>
      rw [(updatePasswordResetToken_eq_some hst).1] at ht
      exact ht
  · rwa [hsame] at ht

theorem active_of_applyAll {ws : List Statement} (h : postgres.applyAll ws db = some db')
    (hws : ∀ w ∈ ws, ¬ IssuesToken w) (active : t.revokedAt = none)
    (ht : t ∈ db'.accounts.refreshTokens.rows) : t ∈ db.accounts.refreshTokens.rows :=
  postgres.applyAll_preserves (P := fun d => t ∈ d.accounts.refreshTokens.rows →
    t ∈ db.accounts.refreshTokens.rows)
    (fun w hw _ _ happly ih ht => ih (active_of_apply happly (hws w hw) ht active)) h id ht

theorem revoked_of_applyAll {ws : List Statement} (h : postgres.applyAll ws db = some db')
    (hws : ∀ w ∈ ws, ¬ IssuesToken w) {now : Instant}
    (revokes : .account (.updateRefreshToken t.id now) ∈ ws)
    (ht : t ∈ db'.accounts.refreshTokens.rows) : t.revokedAt ≠ none := by
  intro active
  induction ws generalizing db with
  | nil => exact absurd revokes List.not_mem_nil
  | cons w ws ih =>
    have hrest : ∀ w' ∈ ws, ¬ IssuesToken w' := fun w' hw' => hws w' (List.mem_cons_of_mem _ hw')
    rcases List.mem_cons.mp revokes with rfl | hmem
    · obtain ⟨accounts, happly, happlyAll⟩ := applyAll_account_cons h
      obtain ⟨-, -, hrows⟩ := updateRefreshToken_eq_some.mp happly
      have hmid := active_of_applyAll happlyAll hrest active ht
      rw [hrows, mem_revokeWhere active] at hmid
      exact hmid.2 rfl
    · rw [StatementSemantics.applyAll_cons, Option.bind_eq_some_iff] at h
      obtain ⟨mid, -, hmid⟩ := h
      exact ih hmid hrest hmem

end

/-! ## After the change -/

/-- The step is the commit with which a refresh redeems a token of the user. -/
def Redeems (crypto : AuthCrypto) (settings : AuthSettings)
    (σ : Server Db Statement ServiceError Unit) (a : Action) (userId : Uuid) : Prop :=
  ∃ (σ' : Server Db Statement ServiceError Unit) (i : ℕ) (pending : List Statement) (env' : AuthEnv)
    (user : User), σ.step postgres a = some σ' ∧ user.id = userId ∧
    σ.sessions[i]? = some ⟨pending, .commit (afterRedeem crypto settings env' (some user))⟩ ∧
    σ'.sessions[i]? = some ⟨[], afterRedeem crypto settings env' (some user)⟩

/-- No refresh token of the user is accepted any more, neither by a session that is under way nor
by a call that comes later. -/
structure AcceptsNone (crypto : AuthCrypto) (settings : AuthSettings)
    (σ : Server Db Statement ServiceError Unit) (userId : Uuid) : Prop where
  step : ∀ a, ¬ Redeems crypto settings σ a userId
  call : ∀ env rawToken n user, user.id = userId →
    ((redeemRefreshToken crypto env rawToken).serial postgres σ.committed σ.committed n).result ≠
      .ok (some user)

/-- The transaction that changes the password revokes every token of the user, and no refresh
has one in hand. -/
structure ChangesAlone (crypto : AuthCrypto) (settings : AuthSettings)
    (σ : Server Db Statement ServiceError Unit) (ws : List Statement) (userId : Uuid) : Prop where
  revokes : ∀ t ∈ σ.committed.accounts.refreshTokens.rows, t.userId = userId → t.revokedAt = none →
    ∃ now, .account (.updateRefreshToken t.id now) ∈ ws
  nobody : ∀ s ∈ σ.sessions, ¬ RefreshPoint crypto settings (some userId) s

/-- The invariant from the change on. -/
structure Quiet (crypto : AuthCrypto) (settings : AuthSettings) (userId : Uuid)
    (σ : Server Db Statement ServiceError Unit) : Prop where
  revoked : ∀ t ∈ σ.committed.accounts.refreshTokens.rows, t.revokedAt = none → t.userId ≠ userId
  sessions : ∀ s ∈ σ.sessions, Stands crypto settings (fun o => o ≠ some userId) s

section

variable {crypto : AuthCrypto} {settings : AuthSettings} {userId : Uuid}
  {σ σ' : Server Db Statement ServiceError Unit} {a : Action}

theorem Quiet.step (h : Quiet crypto settings userId σ) (move : σ.step postgres a = some σ') :
    Quiet crypto settings userId σ' := by
  obtain ⟨hrevoked, hsessions⟩ := h
  have hactive : ∀ t ∈ σ.committed.accounts.refreshTokens.rows, t.revokedAt = none →
      some t.userId ≠ some userId := fun t ht hnone heq =>
    hrevoked t ht hnone (Option.some.inj heq)
  refine ⟨?_, stands_step (fun h => nomatch h) hsessions hactive move⟩
  obtain ⟨i, ⟨pending, program⟩, hs, effect⟩ := Server.step_effect move
  have hstands := hsessions _ (List.mem_of_getElem? hs)
  cases effect with
  | dropped error sequence _ => exact hrevoked
  | moved next view program accepted => exact hrevoked
  | flushed statements next view program _ _ => exact hrevoked
  | committed next view program _ accepted =>
    subst program
    intro t ht hnone
    rcases hstands with ⟨o, hpoint, ho⟩ | hpassword
    · obtain ⟨hcommit, -⟩ := hpoint.commit
      cases hcommit with
      | revokes id now =>
        refine hrevoked t (active_of_applyAll accepted (fun w hw => ?_) hnone ht) hnone
        rw [List.mem_singleton.mp hw]
        exact fun h => h
      | inserts env' user holds =>
        obtain ⟨accounts, happly, rfl⟩ := applyAll_account_singleton accepted
        obtain ⟨tokenHash, -, -, -, hrows⟩ := insertRefreshToken_eq_some happly
        rw [hrows] at ht
        rcases List.mem_append.mp ht with ht | ht
        · exact hrevoked t ht hnone
        · rw [List.mem_singleton.mp ht]
          exact fun heq => ho (holds.trans (congrArg some heq))
    · exact hrevoked t (active_of_applyAll accepted hpassword.sent hnone ht) hnone

/-- The run lemma. -/
theorem Quiet.run (h : Quiet crypto settings userId σ)
    (after : Server.Reaches postgres (fun _ _ => True) σ σ') : Quiet crypto settings userId σ' := by
  induction after with
  | refl => exact h
  | step _ move _ ih => exact ih.step move

/-- A call that returns a user has found an active token of the user. -/
theorem redeemed_row (settings : AuthSettings) {env : AuthEnv} {rawToken : String} {db : Db} {n : ℕ}
    {user : User}
    (h : ((redeemRefreshToken crypto env rawToken).serial postgres db db n).result =
      .ok (some user)) :
    ∃ t ∈ db.accounts.refreshTokens.rows, t.revokedAt = none ∧ t.userId = user.id := by
  obtain ⟨work, heffect⟩ := Request.serial_sound
    (redeemRefreshToken_effect : (redeemRefreshToken crypto env rawToken).wp
      postgres (Shows crypto settings (.redeem env rawToken) db .redeemed) db db n)
  rw [Shows, h] at heffect
  generalize hresponse : Except.map AuthResponse.redeemed (.ok (some user)) = response at heffect
  cases heffect with
  | failed presents same => cases hresponse
  | issued env user request fresh rest rows => cases hresponse
  | redeemed t found rest rows =>
    obtain ⟨hfound, hactive, -⟩ := redeemable_eq_some.mp found
    have huser : (db.accounts.users.find? t.userId).filter User.isActive = some user := by
      simpa [Except.map] using hresponse.symm
    refine ⟨t, List.mem_of_find?_eq_some hfound, hactive, ?_⟩
    exact (Table.find?_eq_some.mp (Option.filter_eq_some_iff.mp huser).1).2.symm
  | notRedeemed found same => cases hresponse

theorem Quiet.acceptsNone (h : Quiet crypto settings userId σ) :
    AcceptsNone crypto settings σ userId := by
  refine ⟨?_, fun env rawToken n user huser heq => ?_⟩
  · rintro a ⟨σ', i, pending, env', user, move, huser, -, hs'⟩
    rcases (h.step move).sessions _ (List.mem_of_getElem? hs') with ⟨o, hpoint, ho⟩ | hpassword
    · rw [hpoint.issuing_inv, huser] at ho
      exact ho rfl
    · have hsame : Unrestricted emptyDb emptyDb := trivial
      have hpromise := hpassword.promise emptyDb
      rw [afterRedeem_some] at hpromise
      exact (hpromise.flush_step hsame 0).1 _ List.mem_cons_self trivial
  · obtain ⟨t, ht, hactive, htuser⟩ := redeemed_row settings heq
    exact h.revoked t ht hactive (htuser.trans huser)

/-- The step lemma of the change. -/
theorem quiet_of_change {ws : List Statement} {hashedPassword : String} {view : Db}
    (h : ∀ s ∈ σ.sessions, Stands crypto settings (fun _ => True) s)
    (commits : σ.committing a = some ws)
    (changes : .account (.updatePassword userId hashedPassword) ∈ ws)
    (accepted : postgres.applyAll ws σ.committed = some view)
    (alone : ChangesAlone crypto settings σ ws userId) (move : σ.step postgres a = some σ') :
    Quiet crypto settings userId σ' := by
  have hnobody : ∀ s ∈ σ.sessions, Stands crypto settings (fun o => o ≠ some userId) s := by
    intro s hs
    rcases h s hs with ⟨o, hpoint, -⟩ | hpassword
    · exact .inl ⟨o, hpoint, fun heq => alone.nobody s hs (heq ▸ hpoint)⟩
    · exact .inr hpassword
  obtain ⟨i, next, hs, rfl⟩ := Server.step_of_committing commits accepted move
  have hstands := hnobody _ (List.mem_of_getElem? hs)
  refine ⟨fun t ht hactive huser => ?_, Server.forall_setSession hnobody
    (hstands.commit (fun heq => nomatch heq) accepted)⟩
  rcases hstands with ⟨o, hpoint, -⟩ | hpassword
  · -- a refresh changes no password
    obtain ⟨hcommit, -⟩ := hpoint.commit
    cases hcommit with
    | revokes id now => nomatch List.mem_singleton.mp changes
    | inserts env' user holds => nomatch List.mem_singleton.mp changes
  · have hbefore := active_of_applyAll accepted hpassword.sent hactive ht
    obtain ⟨now, hrevokes⟩ := alone.revokes t hbefore huser hactive
    exact revoked_of_applyAll accepted hpassword.sent hrevokes ht hactive

end

/-- Once a change of the password has committed, no refresh token of the user is accepted, if the
change revoked all of them and no refresh had one in hand. -/
theorem change_ends_refreshes (crypto : AuthCrypto) (settings : AuthSettings) (db : Db) (n : ℕ)
    (requests : List SessionRequest) {σ₁ σ₂ σ₃ : Server Db Statement ServiceError Unit} {a : Action}
    {ws : List Statement} {view : Db} {userId : Uuid} {hashedPassword : String}
    (before : Server.Reaches postgres (fun _ _ => True)
      (start db n (requests.map (·.request crypto settings))) σ₁)
    (commits : σ₁.committing a = some ws)
    (changes : .account (.updatePassword userId hashedPassword) ∈ ws)
    (accepted : postgres.applyAll ws σ₁.committed = some view)
    (move : σ₁.step postgres a = some σ₂) (alone : ChangesAlone crypto settings σ₁ ws userId)
    (after : Server.Reaches postgres (fun _ _ => True) σ₂ σ₃) :
    AcceptsNone crypto settings σ₃ userId := by
  have hstands : ∀ s ∈ σ₁.sessions, Stands crypto settings (fun _ => True) s := by
    clear commits accepted move alone
    induction before with
    | refl =>
      intro s hs
      obtain ⟨p, hp, rfl⟩ := List.mem_map.mp hs
      obtain ⟨r, -, rfl⟩ := List.mem_map.mp hp
      exact stands_start r trivial
    | step _ move _ ih => exact stands_step trivial ih (fun _ _ _ => trivial) move
  exact ((quiet_of_change hstands commits changes accepted alone move).run after).acceptsNone

/-! ## A refresh around a change of the password -/

def sampleChange : SessionRequest :=
  .changePassword (sampleAuthEnv 3) 1 "old password" "new password"

/-- The refresh presents the token of the session and issues the next one. -/
def sampleRefresh : SessionRequest :=
  .refresh (sampleAuthEnv 1) (sampleAuthEnv 2) (sampleAuthEnv 0).rawToken

def sampleSessions (requests : List SessionRequest) : Server Db Statement ServiceError Unit :=
  start sampleSession 1 (requests.map (·.request sampleAuthCrypto sampleSettings))

def newPassword : AccountStatement :=
  .updatePassword 1 "$2b$12$K8sLfTgHbWc2xEo6NyRa4ub6Ltif8I8hMXFYYjbUaQzN2r9iFHVXq"

theorem RefreshPoint.pending_length {crypto : AuthCrypto} {settings : AuthSettings} {o : Option Uuid}
    {s : Session Db Statement ServiceError Unit} (h : RefreshPoint crypto settings o s) :
    s.pending.length ≤ 1 := by
  cases h with
  | redeeming env env' rawToken o point => cases point <;> simp
  | _ => simp

theorem change_ends_refreshes_sample :
    ∃ σ₁ σ₂, Server.run postgres (fun _ _ => true) (sampleSessions [sampleChange])
        (List.replicate 3 (.run 0)) = some σ₁ ∧ σ₁.step postgres (.run 0) = some σ₂ ∧
      AcceptsNone sampleAuthCrypto sampleSettings σ₂ 1 := by
  have hrun : ((Server.run postgres (fun _ _ => true) (sampleSessions [sampleChange])
      (List.replicate 3 (.run 0))).bind fun σ₁ => (σ₁.step postgres (.run 0)).map fun _ =>
        (σ₁.committing (.run 0), (postgres.applyAll [.account newPassword,
          .account (.updateRefreshToken 10 63839664003000000)] σ₁.committed).isSome,
        σ₁.committed.accounts.refreshTokens.rows.map RefreshToken.id,
        σ₁.sessions.map fun s => s.pending.length)) =
      some (some [.account newPassword, .account (.updateRefreshToken 10 63839664003000000)], true,
        [10], [2]) := by decide +kernel
  obtain ⟨σ₁, hσ₁, hrest⟩ := Option.bind_eq_some_iff.mp hrun
  obtain ⟨σ₂, hσ₂, hfacts⟩ := Option.map_eq_some_iff.mp hrest
  simp only [Prod.mk.injEq] at hfacts
  obtain ⟨hcommits, haccepted, hids, hpending⟩ := hfacts
  obtain ⟨view, hview⟩ := Option.isSome_iff_exists.mp haccepted
  refine ⟨σ₁, σ₂, hσ₁, hσ₂, ?_⟩
  refine change_ends_refreshes sampleAuthCrypto sampleSettings sampleSession 1 [sampleChange]
    (Server.Reaches.of_run (fun _ _ _ => trivial) .refl hσ₁) hcommits List.mem_cons_self hview hσ₂
    ⟨fun t ht _ _ => ⟨63839664003000000, ?_⟩, fun s hs hpoint => ?_⟩ .refl
  · have hid : t.id ∈ [10] := hids ▸ List.mem_map_of_mem ht
    rw [List.mem_singleton.mp hid]
    exact List.mem_cons_of_mem _ List.mem_cons_self
  · have htwo : s.pending.length ∈ [2] := hpending ▸ List.mem_map.mpr ⟨s, hs, rfl⟩
    have hone := hpoint.pending_length
    rw [List.mem_singleton.mp htwo] at hone
    nomatch hone

/-- A refresh redeems before the change and issues after it. -/
theorem refreshed_through_change :
    ∃ σ₁ σ₂ σ₃ ws view hashedPassword,
      Server.Reaches postgres (fun _ _ => True) (sampleSessions [sampleRefresh, sampleChange]) σ₁ ∧
      σ₁.committing (.run 1) = some ws ∧ .account (.updatePassword 1 hashedPassword) ∈ ws ∧
      postgres.applyAll ws σ₁.committed = some view ∧ σ₁.step postgres (.run 1) = some σ₂ ∧
      Server.Reaches postgres (fun _ _ => True) σ₂ σ₃ ∧
      ¬ AcceptsNone sampleAuthCrypto sampleSettings σ₃ 1 := by
  have hrun : ((Server.run postgres (fun _ _ => true) (sampleSessions [sampleRefresh, sampleChange])
      (List.replicate 4 (.run 0) ++ List.replicate 3 (.run 1))).bind fun σ₁ =>
        (σ₁.step postgres (.run 1)).bind fun σ₂ =>
          (σ₂.run postgres (fun _ _ => true) (List.replicate 2 (.run 0))).map fun σ₃ =>
            (σ₁.committing (.run 1), (postgres.applyAll [.account newPassword] σ₁.committed).isSome,
              ((redeemRefreshToken sampleAuthCrypto (sampleAuthEnv 4) (sampleAuthEnv 2).rawToken).serial
                postgres σ₃.committed σ₃.committed 1).result)) =
      some (some [.account newPassword], true, .ok (some { sampleUser with
        hashedPassword := "$2b$12$K8sLfTgHbWc2xEo6NyRa4ub6Ltif8I8hMXFYYjbUaQzN2r9iFHVXq" })) := by
    decide +kernel
  obtain ⟨σ₁, hσ₁, hrest⟩ := Option.bind_eq_some_iff.mp hrun
  obtain ⟨σ₂, hσ₂, hrest⟩ := Option.bind_eq_some_iff.mp hrest
  obtain ⟨σ₃, hσ₃, hfacts⟩ := Option.map_eq_some_iff.mp hrest
  simp only [Prod.mk.injEq] at hfacts
  obtain ⟨hcommits, haccepted, hredeemed⟩ := hfacts
  obtain ⟨view, hview⟩ := Option.isSome_iff_exists.mp haccepted
  exact ⟨σ₁, σ₂, σ₃, _, view, _, Server.Reaches.of_run (fun _ _ _ => trivial) .refl hσ₁, hcommits,
    List.mem_cons_self, hview, hσ₂, Server.Reaches.of_run (fun _ _ _ => trivial) .refl hσ₃,
    fun h => h.call _ _ _ _ rfl hredeemed⟩

end NexusEngine.PasswordChangeRaces
