import NexusEngine.AuthLifecycle

/-!
# Which refresh tokens are accepted

An observer of a serial run sees tokens issued and presented and passwords changed. From that
alone it is known which tokens redeem: those issued to an active user, not expired, and since
then neither presented nor followed by a change of the password.
-/

namespace NexusEngine.RefreshTokenRuns

open TransactionalRequests TextEncodings CalendarTime StoredColumns PythonText KeyedTables
  AccountTables Database AuthService AuthLifecycle

/-! ## What a run shows -/

inductive SessionEvent where
  | issued (rawToken : String) (userId : Uuid) (expiresAt : Instant)
  | presented (rawToken : String)
  | passwordChanged (userId : Uuid)
  deriving DecidableEq, Repr

/-- A reset changes the password of the user whose reset token it is. -/
def eventsOf (crypto : AuthCrypto) (settings : AuthSettings) (s : AccountStore) :
    AuthRequest → Except ServiceError AuthResponse → List SessionEvent
  | .login env _ _, .ok (.issued userId rawToken) =>
    [.issued rawToken userId (env.now 0 + days settings.refreshTokenExpireDays)]
  | .issue env _, .ok (.issued userId rawToken) =>
    [.issued rawToken userId (env.now 0 + days settings.refreshTokenExpireDays)]
  | .redeem _ rawToken, _ => [.presented rawToken]
  | .revoke _ rawToken, _ => [.presented rawToken]
  | .changePassword _ _ _ _, .ok (.passwordChanged userId) => [.passwordChanged userId]
  | .resetPassword _ rawToken _, .ok (.passwordReset true) =>
    (resetTokenOf crypto s rawToken).toList.map fun t => .passwordChanged t.userId
  | _, _ => []

/-- The events of a run, in the order of the requests. -/
def events (crypto : AuthCrypto) (settings : AuthSettings) :
    Store Db → List AuthRequest → List SessionEvent
  | _, [] => []
  | s, r :: rs =>
    eventsOf crypto settings s.db.accounts r (respond crypto settings s r) ++
      events crypto settings (s.exec postgres (r.request crypto settings)) rs

/-- The token was issued to the user, and since then neither was it presented nor did the user's
password change. -/
def Outstanding (es : List SessionEvent) (rawToken : String) (userId : Uuid)
    (expiresAt : Instant) : Prop :=
  ∃ before after, es = before ++ .issued rawToken userId expiresAt :: after ∧
    .presented rawToken ∉ after ∧ .passwordChanged userId ∉ after

/-- The readings of the clock in a request. -/
def readings : AuthRequest → List Instant
  | .login env _ _ => [env.now 0]
  | .issue env _ => [env.now 0]
  | .redeem env _ => [env.now 0, env.now 1]
  | .revoke env _ => [env.now 0]
  | .changePassword env _ _ _ => [env.now 0]
  | .createPasswordResetToken env _ => [env.now 0]
  | .resetPassword env _ _ => [env.now 0, env.now 1]
  | .setUserActive _ _ => []

/-- The clock never goes back during a run. -/
def ClockAdvances (rs : List AuthRequest) : Prop := (rs.flatMap readings).Pairwise (· ≤ ·)

instance (rs : List AuthRequest) : Decidable (ClockAdvances rs) :=
  inferInstanceAs (Decidable (List.Pairwise _ _))

/-! ## One more event -/

/-- The event ends the life of the token. -/
def Kills (e : SessionEvent) (rawToken : String) (userId : Uuid) : Prop :=
  e = .presented rawToken ∨ e = .passwordChanged userId

theorem outstanding_concat {es : List SessionEvent} {e : SessionEvent} {rawToken : String}
    {userId : Uuid} {expiresAt : Instant} :
    Outstanding (es ++ [e]) rawToken userId expiresAt ↔
      e = .issued rawToken userId expiresAt ∨
        Outstanding es rawToken userId expiresAt ∧ ¬ Kills e rawToken userId := by
  constructor
  · rintro ⟨before, after, heq, hpresented, hchanged⟩
    rcases concat_eq_append_cons.mp heq with ⟨-, hlast, -⟩ | ⟨after, rfl, hes⟩
    · exact .inl hlast
    · refine .inr ⟨⟨before, after, hes, fun h => hpresented ?_, fun h => hchanged ?_⟩, ?_⟩
      · exact List.mem_append_left _ h
      · exact List.mem_append_left _ h
      · rintro (rfl | rfl)
        · exact hpresented (List.mem_append_right _ List.mem_cons_self)
        · exact hchanged (List.mem_append_right _ List.mem_cons_self)
  · rintro (rfl | ⟨⟨before, after, rfl, hpresented, hchanged⟩, hkills⟩)
    · exact ⟨es, [], rfl, List.not_mem_nil, List.not_mem_nil⟩
    · refine ⟨before, after ++ [e], by simp, fun h => ?_, fun h => ?_⟩
      · rcases List.mem_append.mp h with h | h
        · exact hpresented h
        · exact hkills (.inl (List.mem_singleton.mp h).symm)
      · rcases List.mem_append.mp h with h | h
        · exact hchanged h
        · exact hkills (.inr (List.mem_singleton.mp h).symm)

/-! ## The rows behind the events -/

/-- The active rows are the outstanding tokens and tokens that have expired by the end. -/
structure Tracks (crypto : AuthCrypto) (final : Instant) (s : AccountStore)
    (es : List SessionEvent) : Prop where
  unique : UniqueHashes s
  active : ∀ t ∈ s.refreshTokens.rows, t.revokedAt = none →
    ∃ rawToken, t.tokenHash = crypto.hashRefreshToken rawToken ∧
      (Outstanding es rawToken t.userId t.expiresAt ∨ t.expiresAt < final)
  outstanding : ∀ rawToken userId expiresAt, Outstanding es rawToken userId expiresAt →
    ∃ t ∈ s.refreshTokens.rows, t.tokenHash = crypto.hashRefreshToken rawToken ∧
      t.userId = userId ∧ t.expiresAt = expiresAt ∧ t.revokedAt = none

theorem map_tokenHash_revokeWhere (p : RefreshToken → Prop) [DecidablePred p] (now : Instant)
    (rows : List RefreshToken) :
    (revokeWhere p now rows).map RefreshToken.tokenHash = rows.map RefreshToken.tokenHash := by
  rw [revokeWhere, List.map_map]
  refine List.map_congr_left fun t _ => ?_
  simp only [Function.comp]
  split <;> rfl

section

variable {crypto : AuthCrypto} {settings : AuthSettings} {final : Instant} {s s' : AccountStore}
  {es : List SessionEvent}

theorem Tracks.empty (hempty : s.refreshTokens.rows = []) : Tracks crypto final s [] where
  unique := by
    rw [UniqueHashes, hempty]
    exact List.nodup_nil
  active t ht := by
    rw [hempty] at ht
    exact absurd ht List.not_mem_nil
  outstanding rawToken userId expiresAt h := by
    obtain ⟨before, after, heq, -⟩ := h
    simp at heq

theorem Tracks.silent (h : Tracks crypto final s es) {shown : List SessionEvent}
    (nothing : shown = []) (hs : s'.refreshTokens = s.refreshTokens) :
    Tracks crypto final s' (es ++ shown) := by
  obtain ⟨hunique, hactive, houtstanding⟩ := h
  rw [nothing, List.append_nil]
  refine ⟨?_, ?_, ?_⟩
  · rw [UniqueHashes, hs]
    exact hunique
  · rw [hs]
    exact hactive
  · rw [hs]
    exact houtstanding

/-- A new row comes with the event that issues its token. -/
theorem Tracks.issue (h : Tracks crypto final s es) {env : AuthEnv} {user : User}
    (fresh : ∀ t ∈ s.refreshTokens.rows, t.tokenHash ≠ crypto.hashRefreshToken env.rawToken)
    (rows : s'.refreshTokens.rows =
      s.refreshTokens.rows ++ [crypto.refreshToken settings env user]) :
    Tracks crypto final s' (es ++ [.issued env.rawToken user.id
      (env.now 0 + days settings.refreshTokenExpireDays)]) := by
  obtain ⟨hunique, hactive, houtstanding⟩ := h
  have hspared : ∀ rawToken userId, ¬ Kills (.issued env.rawToken user.id
      (env.now 0 + days settings.refreshTokenExpireDays)) rawToken userId := by
    rintro rawToken userId (h | h) <;> cases h
  refine ⟨?_, fun t ht hnone => ?_, fun rawToken userId expiresAt h => ?_⟩
  · rw [UniqueHashes, rows, List.map_append, List.map_singleton]
    refine List.nodup_append.mpr ⟨hunique, List.nodup_singleton _, ?_⟩
    rintro hash hmem _ hnew rfl
    obtain ⟨t, ht, rfl⟩ := List.mem_map.mp hmem
    exact fresh t ht (List.mem_singleton.mp hnew)
  · rw [rows] at ht
    rcases List.mem_append.mp ht with ht | ht
    · obtain ⟨rawToken, hhash, hlive | hexpired⟩ := hactive t ht hnone
      · exact ⟨rawToken, hhash, .inl (outstanding_concat.mpr (.inr ⟨hlive, hspared _ _⟩))⟩
      · exact ⟨rawToken, hhash, .inr hexpired⟩
    · obtain rfl := List.mem_singleton.mp ht
      exact ⟨env.rawToken, rfl, .inl (outstanding_concat.mpr (.inl rfl))⟩
  · rw [rows]
    rcases outstanding_concat.mp h with h | ⟨h, -⟩
    · cases h
      exact ⟨_, List.mem_append_right _ List.mem_cons_self, rfl, rfl, rfl, rfl⟩
    · obtain ⟨t, ht, hrow⟩ := houtstanding _ _ _ h
      exact ⟨t, List.mem_append_left _ ht, hrow⟩

/-- Rows are revoked together with the event that kills their tokens. A token that the event
kills and whose row it spares has expired. -/
theorem Tracks.kill (h : Tracks crypto final s es) {e : SessionEvent} {p : RefreshToken → Prop}
    [DecidablePred p] {now : Instant}
    (rows : s'.refreshTokens.rows = revokeWhere p now s.refreshTokens.rows)
    (issues : ∀ rawToken userId expiresAt, e ≠ .issued rawToken userId expiresAt)
    (spared : ∀ t ∈ s.refreshTokens.rows, t.revokedAt = none → ¬ p t → ∀ rawToken,
      t.tokenHash = crypto.hashRefreshToken rawToken → Kills e rawToken t.userId →
      t.expiresAt < final)
    (killed : ∀ t ∈ s.refreshTokens.rows, p t → ∀ rawToken,
      t.tokenHash = crypto.hashRefreshToken rawToken → t.revokedAt = none →
      Kills e rawToken t.userId) : Tracks crypto final s' (es ++ [e]) := by
  obtain ⟨hunique, hactive, houtstanding⟩ := h
  refine ⟨?_, fun t ht hnone => ?_, fun rawToken userId expiresAt h => ?_⟩
  · rw [UniqueHashes, rows, map_tokenHash_revokeWhere]
    exact hunique
  · rw [rows, mem_revokeWhere hnone] at ht
    obtain ⟨rawToken, hhash, hlive⟩ := hactive t ht.1 hnone
    refine ⟨rawToken, hhash, ?_⟩
    by_cases hkills : Kills e rawToken t.userId
    · exact .inr (spared t ht.1 hnone ht.2 rawToken hhash hkills)
    · exact hlive.imp_left fun hlive => outstanding_concat.mpr (.inr ⟨hlive, hkills⟩)
  · rcases outstanding_concat.mp h with h | ⟨h, hkills⟩
    · exact absurd h (issues _ _ _)
    · obtain ⟨t, ht, hhash, huser, hexpires, hnone⟩ := houtstanding _ _ _ h
      refine ⟨t, ?_, hhash, huser, hexpires, hnone⟩
      rw [rows, mem_revokeWhere hnone]
      exact ⟨ht, fun hp => hkills (huser ▸ killed t ht hp rawToken hhash hnone)⟩

/-- A row with the hash of a token is the row that the token finds. -/
theorem Tracks.tokenOf_eq (h : Tracks crypto final s es) {t : RefreshToken} {rawToken : String}
    (ht : t ∈ s.refreshTokens.rows) (hhash : t.tokenHash = crypto.hashRefreshToken rawToken) :
    tokenOf crypto s rawToken = some t := by
  cases hfound : tokenOf crypto s rawToken with
  | none => exact absurd hhash (by simpa using List.find?_eq_none.mp hfound t ht)
  | some r =>
    have hr : r.tokenHash = crypto.hashRefreshToken rawToken := by simpa using List.find?_some hfound
    rw [List.inj_on_of_nodup_map h.unique (List.mem_of_find?_eq_some hfound) ht
      (hr.trans hhash.symm)]

/-- Presenting a token revokes its row, or there is no row that could be revoked. -/
theorem Tracks.present (h : Tracks crypto final s es) (hinj : Function.Injective crypto.sha256)
    {rawToken : String} {t : RefreshToken} {now : Instant}
    (found : tokenOf crypto s rawToken = some t)
    (rows : s'.refreshTokens.rows = revokeWhere (fun r => r.id = t.id) now s.refreshTokens.rows) :
    Tracks crypto final s' (es ++ [.presented rawToken]) := by
  have ht : t ∈ s.refreshTokens.rows := List.mem_of_find?_eq_some found
  have hhash : t.tokenHash = crypto.hashRefreshToken rawToken := by
    simpa using List.find?_some found
  refine h.kill rows (by intro _ _ _ heq; cases heq) (fun r hr _ hother raw hraw hkills => ?_)
    fun r hr hid raw hraw _ => .inl ?_
  · rcases hkills with hkills | hkills
    · cases hkills
      rw [h.tokenOf_eq hr hraw] at found
      cases found
      exact absurd rfl hother
    · cases hkills
  · obtain rfl := s.refreshTokens.eq_of_key_eq hr ht hid
    rw [hashRefreshToken_injective hinj (hraw.symm.trans hhash)]

/-- Presenting a token whose row is revoked or expired changes nothing. -/
theorem Tracks.refuse (h : Tracks crypto final s es) {rawToken : String}
    (found : ∀ t, tokenOf crypto s rawToken = some t → t.revokedAt = none → t.expiresAt < final)
    (same : s' = s) : Tracks crypto final s' (es ++ [.presented rawToken]) := by
  have hrows : s'.refreshTokens.rows = revokeWhere (fun _ => False) 0 s.refreshTokens.rows := by
    simp [revokeWhere, same]
  refine h.kill hrows (by intro _ _ _ heq; cases heq) (fun r hr hnone _ raw hraw hkills => ?_)
    fun _ _ hfalse => hfalse.elim
  rcases hkills with hkills | hkills
  · cases hkills
    exact found r (h.tokenOf_eq hr hraw) hnone
  · cases hkills

/-- Revoking the tokens of a user comes with the event that changes the password. -/
theorem Tracks.changePassword (h : Tracks crypto final s es) {userId : Uuid} {now : Instant}
    (rows : s'.refreshTokens.rows = revokeWhere (fun t => t.userId = userId ∧ t.revokedAt = none) now
      s.refreshTokens.rows) :
    Tracks crypto final s' (es ++ [.passwordChanged userId]) := by
  refine h.kill rows (by intro _ _ _ heq; cases heq) (fun r _ hnone hother raw _ hkills => ?_)
    fun r _ hp raw _ _ => .inr (congrArg _ hp.1.symm)
  rcases hkills with hkills | hkills
  · cases hkills
  · cases hkills
    exact absurd ⟨rfl, hnone⟩ hother

/-- The step lemma: the rows stay with the events. -/
theorem Tracks.step (h : Tracks crypto final s es) (hinj : Function.Injective crypto.sha256)
    {r : AuthRequest} {response : Except ServiceError AuthResponse}
    (effect : AuthEffect crypto settings s s' r response) (clock : ∀ now ∈ readings r, now ≤ final) :
    Tracks crypto final s' (es ++ eventsOf crypto settings s r response) := by
  cases effect with
  | failed presents same =>
    replace presents := presents.resolve_right (not_not_intro h.unique)
    refine h.silent ?_ (congrArg _ same)
    cases r with
    | redeem => cases presents
    | revoke => cases presents
    | _ => rfl
  | issued env user request fresh rest rows =>
    rcases request with ⟨_, _, rfl⟩ | rfl
    · exact h.issue fresh rows
    · exact h.issue fresh rows
  | redeemed t found rest rows => exact h.present hinj (redeemable_eq_some.mp found).1 rows
  | @notRedeemed env rawToken found same =>
    refine h.refuse (fun t ht hactive => ?_) same
    exact Nat.lt_of_lt_of_le (redeemable_eq_none found ht hactive)
      (clock _ List.mem_cons_self)
  | revoked t found active rest rows => exact h.present hinj found rows
  | notRevoked found same => exact h.refuse (fun t ht hactive => absurd hactive (found t ht)) same
  | passwordChanged resets rows => exact h.changePassword rows
  | resetTokenIssued user rest rows => exact h.silent rfl (by rw [rest])
  | noResetToken same => exact h.silent rfl (congrArg _ same)
  | passwordReset t found resets rows =>
    have hfound := (Option.filter_eq_some_iff.mp found).1
    rw [eventsOf, hfound]
    exact h.changePassword rows
  | notReset same => exact h.silent rfl (congrArg _ same)
  | activated rest => exact h.silent rfl (by rw [rest])

/-- The run lemma. -/
theorem Tracks.run (hinj : Function.Injective crypto.sha256) {rs : List AuthRequest}
    {s : Store Db} (h : Tracks crypto final s.db.accounts es)
    (clock : ∀ now ∈ rs.flatMap readings, now ≤ final) :
    Tracks crypto final (execAll crypto settings s rs).db.accounts
      (es ++ events crypto settings s rs) := by
  induction rs generalizing s es with
  | nil =>
    rw [events, List.append_nil]
    exact h
  | cons r rs ih =>
    rw [List.flatMap_cons] at clock
    have hstep := h.step hinj (exec_effect crypto settings s r)
      fun now hnow => clock now (List.mem_append_left _ hnow)
    rw [events, ← List.append_assoc]
    exact ih hstep fun now hnow => clock now (List.mem_append_right _ hnow)

end

/-- A token redeems for a user exactly when it is outstanding and not expired, and the user is
active. -/
theorem redeem_accepts_iff (crypto : AuthCrypto) (settings : AuthSettings)
    (hinj : Function.Injective crypto.sha256) (s : Store Db)
    (hempty : s.db.accounts.refreshTokens.rows = []) (rs : List AuthRequest) (env : AuthEnv)
    (rawToken : String) (clock : ClockAdvances (rs ++ [.redeem env rawToken])) (u : User) :
    respond crypto settings (execAll crypto settings s rs) (.redeem env rawToken) =
        .ok (.redeemed (some u)) ↔
      ((execAll crypto settings s rs).db.accounts.users.find? u.id = some u ∧ u.isActive = true) ∧
        ∃ expiresAt, Outstanding (events crypto settings s rs) rawToken u.id expiresAt ∧
          env.now 0 ≤ expiresAt := by
  have hclock : ∀ now ∈ rs.flatMap readings, now ≤ env.now 0 := by
    intro now hnow
    rw [ClockAdvances, List.flatMap_append, List.pairwise_append] at clock
    exact clock.2.2 now hnow _ (by simp [readings])
  have htracks : Tracks crypto (env.now 0) (execAll crypto settings s rs).db.accounts
      (events crypto settings s rs) := (Tracks.empty hempty).run hinj hclock
  have heffect := exec_effect crypto settings (execAll crypto settings s rs) (.redeem env rawToken)
  generalize respond crypto settings (execAll crypto settings s rs) (.redeem env rawToken) = response
    at heffect
  generalize (execAll crypto settings s rs).db.accounts = accounts at htracks heffect
  have hlive : (∃ expiresAt, Outstanding (events crypto settings s rs) rawToken u.id expiresAt ∧
      env.now 0 ≤ expiresAt) ↔
      ∃ t, redeemable (env.now 0) (tokenOf crypto accounts rawToken) = some t ∧ t.userId = u.id := by
    constructor
    · rintro ⟨expiresAt, houtstanding, hfuture⟩
      obtain ⟨t, ht, hhash, huser, hexpires, hactive⟩ := htracks.outstanding _ _ _ houtstanding
      exact ⟨t, redeemable_eq_some.mpr ⟨htracks.tokenOf_eq ht hhash, hactive, hexpires ▸ hfuture⟩,
        huser⟩
    · rintro ⟨t, ht, huser⟩
      obtain ⟨hfound, hactive, hfuture⟩ := redeemable_eq_some.mp ht
      have hhash : t.tokenHash = crypto.hashRefreshToken rawToken := by
        simpa using List.find?_some hfound
      obtain ⟨raw, hraw, hlive⟩ :=
        htracks.active t (List.mem_of_find?_eq_some hfound) hactive
      obtain rfl := hashRefreshToken_injective hinj (hraw.symm.trans hhash)
      rcases hlive with hlive | hexpired
      · exact ⟨t.expiresAt, huser ▸ hlive, hfuture⟩
      · exact absurd hexpired (Nat.not_lt.mpr hfuture)
  rw [hlive]
  cases heffect with
  | failed presents same => cases presents.resolve_right (not_not_intro htracks.unique)
  | issued env user request fresh rest rows => rcases request with ⟨_, _, h⟩ | h <;> cases h
  | redeemed t found rest rows =>
    simp only [Except.ok.injEq, AuthResponse.redeemed.injEq, Option.filter_eq_some_iff, found,
      Option.some.injEq]
    constructor
    · rintro ⟨huser, hactive⟩
      have hid : u.id = t.userId := (Table.find?_eq_some.mp huser).2
      exact ⟨⟨hid ▸ huser, hactive⟩, t, rfl, hid.symm⟩
    · rintro ⟨⟨huser, hactive⟩, t', rfl, hid⟩
      exact ⟨hid ▸ huser, hactive⟩
  | notRedeemed found same => simp [found]

/-- SHA-256 on the first sample token. -/
def sampleInjectiveSha256 (bs : Bytes) : Bytes :=
  if bs = utf8 (chars ((sampleAuthEnv 0).rawToken)) then Sha256.sha256 bs
  else List.replicate 33 0 ++ bs

theorem sampleInjectiveSha256_injective : Function.Injective sampleInjectiveSha256 := by
  have hlength : (Sha256.sha256 (utf8 (chars ((sampleAuthEnv 0).rawToken)))).length = 32 := by
    decide +kernel
  intro bs bs' h
  unfold sampleInjectiveSha256 at h
  split at h
  · next heq =>
    split at h
    · next heq' => rw [heq, heq']
    · rw [heq] at h
      have hlen := congrArg List.length h
      rw [hlength] at hlen
      simp at hlen
  · split at h
    · next heq' =>
      rw [heq'] at h
      have hlen := congrArg List.length h
      rw [hlength] at hlen
      simp at hlen
    · exact List.append_cancel_left h

theorem redeem_accepts_iff_sample :
    respond { sampleAuthCrypto with sha256 := sampleInjectiveSha256 } sampleSettings
      (execAll { sampleAuthCrypto with sha256 := sampleInjectiveSha256 } sampleSettings
        sampleAccounts [.issue (sampleAuthEnv 0) sampleUser])
      (.redeem (sampleAuthEnv 1) (sampleAuthEnv 0).rawToken) =
        .ok (.redeemed (some sampleUser)) := by
  refine (redeem_accepts_iff { sampleAuthCrypto with sha256 := sampleInjectiveSha256 }
    sampleSettings sampleInjectiveSha256_injective sampleAccounts rfl
    [.issue (sampleAuthEnv 0) sampleUser] (sampleAuthEnv 1) (sampleAuthEnv 0).rawToken
    (by decide) sampleUser).mpr ⟨by decide +kernel, 63842256000000000, ⟨[], [], ?_,
      List.not_mem_nil, List.not_mem_nil⟩, by decide⟩
  decide +kernel

end NexusEngine.RefreshTokenRuns
