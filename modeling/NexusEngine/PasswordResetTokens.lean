import NexusEngine.RefreshTokenRuns

/-!
# Reset tokens after a change of the password

A reset token is rejected once it is used or expired, and for good. Changing a password uses at
most the token it was changed with, so that the other tokens of the user are rejected afterwards
as far as they were used or expired before.
-/

namespace NexusEngine.PasswordResetTokens

open TransactionalRequests CalendarTime StoredColumns AccountTables Database AuthService
  AuthLifecycle RefreshTokenRuns

def Spent (now : Instant) (t : PasswordResetToken) : Prop := t.usedAt ≠ none ∨ t.expiresAt < now

/-- A request that has changed the password of a user: when, and with which reset token. -/
inductive PasswordChange (crypto : AuthCrypto) (s : AccountStore) :
    AuthRequest → Except ServiceError AuthResponse → Uuid → Instant → Option PasswordResetToken →
      Prop where
  | own {env userId current new} :
      PasswordChange crypto s (.changePassword env userId current new)
        (.ok (.passwordChanged userId)) userId (env.now 0) none
  | reset {env rawToken new} (t : PasswordResetToken)
      (found : resetTokenOf crypto s rawToken = some t) :
      PasswordChange crypto s (.resetPassword env rawToken new) (.ok (.passwordReset true)) t.userId
        (env.now 0) (some t)

/-- No reset token that the user has before the request is accepted after it. A token that was
issued has a row, which says whose it is. -/
def RejectsEarlierTokens (crypto : AuthCrypto) (settings : AuthSettings) (s : Store Db)
    (r : AuthRequest) (userId : Uuid) : Prop :=
  ∀ (rs : List AuthRequest) (env : AuthEnv) (rawToken new : String) (t : PasswordResetToken),
    ClockAdvances (r :: (rs ++ [.resetPassword env rawToken new])) →
    resetTokenOf crypto s.db.accounts rawToken = some t → t.userId = userId →
    respond crypto settings (execAll crypto settings s (r :: rs))
      (.resetPassword env rawToken new) ≠ .ok (.passwordReset true)

/-! ## A row and what becomes of it -/

/-- The row of a token later on: still there, and still used if it was. -/
structure Keeps (t t' : PasswordResetToken) : Prop where
  expiresAt : t'.expiresAt = t.expiresAt
  usedAt : t.usedAt ≠ none → t'.usedAt ≠ none

theorem Keeps.refl (t : PasswordResetToken) : Keeps t t := ⟨rfl, id⟩

theorem Keeps.spent {t t' : PasswordResetToken} {now final : Instant} (h : Keeps t t')
    (hspent : Spent now t) (hle : now ≤ final) : Spent final t' := by
  rcases hspent with hused | hexpired
  · exact .inl (h.usedAt hused)
  · refine .inr ?_
    rw [h.expiresAt]
    exact Nat.lt_of_lt_of_le hexpired hle

section

variable {crypto : AuthCrypto} {settings : AuthSettings} {s s' : AccountStore} {rawToken : String}
  {t : PasswordResetToken}

theorem resetTokenOf_append {new : PasswordResetToken}
    (rows : s'.passwordResetTokens.rows = s.passwordResetTokens.rows ++ [new])
    (found : resetTokenOf crypto s rawToken = some t) : resetTokenOf crypto s' rawToken = some t := by
  rw [resetTokenOf, rows, List.find?_append]
  rw [resetTokenOf] at found
  rw [found, Option.some_or]

/-- Using a token leaves the hashes. -/
theorem resetTokenOf_use {id : Uuid} {now : Instant}
    (rows : s'.passwordResetTokens.rows = s.passwordResetTokens.rows.map fun r =>
      if r.id = id then { r with usedAt := some now } else r)
    (found : resetTokenOf crypto s rawToken = some t) :
    resetTokenOf crypto s' rawToken =
      some (if t.id = id then { t with usedAt := some now } else t) := by
  have hhash : ∀ r : PasswordResetToken,
      (if r.id = id then { r with usedAt := some now } else r).tokenHash = r.tokenHash := by
    intro r
    split <;> rfl
  rw [resetTokenOf, rows, List.find?_map]
  simp only [Function.comp_def, hhash]
  rw [resetTokenOf] at found
  rw [found, Option.map_some]

theorem keeps_use (id : Uuid) (now : Instant) (t : PasswordResetToken) :
    Keeps t (if t.id = id then { t with usedAt := some now } else t) := by
  split
  · exact ⟨rfl, fun _ h => nomatch h⟩
  · exact .refl t

/-- The step lemma: the row of a token stays. -/
theorem keeps_of_effect {r : AuthRequest} {response : Except ServiceError AuthResponse}
    (effect : AuthEffect crypto settings s s' r response)
    (found : resetTokenOf crypto s rawToken = some t) :
    ∃ t', resetTokenOf crypto s' rawToken = some t' ∧ Keeps t t' := by
  have same : s'.passwordResetTokens = s.passwordResetTokens →
      ∃ t', resetTokenOf crypto s' rawToken = some t' ∧ Keeps t t' := by
    intro h
    refine ⟨t, ?_, .refl t⟩
    rw [resetTokenOf, h]
    exact found
  cases effect with
  | failed _ h => exact same (congrArg _ h)
  | issued _ _ _ _ rest _ => exact same (by rw [rest])
  | redeemed _ _ rest _ => exact same (by rw [rest])
  | notRedeemed _ h => exact same (congrArg _ h)
  | revoked _ _ _ rest _ => exact same (by rw [rest])
  | notRevoked _ h => exact same (congrArg _ h)
  | passwordChanged resets _ => exact same resets
  | resetTokenIssued user _ rows => exact ⟨t, resetTokenOf_append rows found, .refl t⟩
  | noResetToken h => exact same (congrArg _ h)
  | passwordReset used _ resets _ => exact ⟨_, resetTokenOf_use resets found, keeps_use _ _ t⟩
  | notReset h => exact same (congrArg _ h)
  | activated rest => exact same (by rw [rest])

end

section

variable {crypto : AuthCrypto} {settings : AuthSettings} {s : Store Db} {rawToken : String}
  {t : PasswordResetToken}

/-- The run lemma. -/
theorem keeps_of_run (settings : AuthSettings) (rs : List AuthRequest)
    (found : resetTokenOf crypto s.db.accounts rawToken = some t) :
    ∃ t', resetTokenOf crypto (execAll crypto settings s rs).db.accounts rawToken = some t' ∧
      Keeps t t' := by
  refine Store.execAll_preserves (Q := fun _ _ => True)
    (P := fun s : Store Db => ∃ t', resetTokenOf crypto s.db.accounts rawToken = some t' ∧ Keeps t t')
    ⟨t, found, .refl t⟩ (fun _ _ _ _ => trivial) ?_
  rintro s r - ⟨t₁, hfound₁, hkeeps₁⟩
  obtain ⟨t₂, hfound₂, hkeeps₂⟩ := keeps_of_effect (exec_effect crypto settings s r) hfound₁
  exact ⟨t₂, hfound₂, hkeeps₂.expiresAt.trans hkeeps₁.expiresAt,
    fun h => hkeeps₂.usedAt (hkeeps₁.usedAt h)⟩

/-- A token that is used or expired is rejected. -/
theorem reset_rejected {env : AuthEnv} {new : String}
    (found : resetTokenOf crypto s.db.accounts rawToken = some t) (spent : Spent (env.now 0) t) :
    respond crypto settings s (.resetPassword env rawToken new) ≠ .ok (.passwordReset true) := by
  have heffect := exec_effect crypto settings s (.resetPassword env rawToken new)
  intro haccepted
  rw [haccepted] at heffect
  cases heffect with
  | passwordReset t' usable' _ _ =>
    obtain ⟨hfound, husable⟩ := Option.filter_eq_some_iff.mp usable'
    obtain rfl : t = t' := Option.some.inj (found.symm.trans hfound)
    rcases spent with hused | hexpired
    · cases husedAt : t.usedAt with
      | none => exact hused husedAt
      | some _ => simp [husedAt] at husable
    · simp [hexpired] at husable

/-- After the change a token of the user is spent, if every other one was. -/
theorem spent_of_change {r : AuthRequest} {response : Except ServiceError AuthResponse}
    {s s' : AccountStore} {userId : Uuid} {now : Instant} {consumed : Option PasswordResetToken}
    (effect : AuthEffect crypto settings s s' r response)
    (change : PasswordChange crypto s r response userId now consumed)
    (others : ∀ t ∈ s.passwordResetTokens.rows, t.userId = userId → t ∉ consumed → Spent now t)
    (found : resetTokenOf crypto s rawToken = some t) (user : t.userId = userId) :
    ∃ t', resetTokenOf crypto s' rawToken = some t' ∧ Spent now t' := by
  have ht : t ∈ s.passwordResetTokens.rows := List.mem_of_find?_eq_some found
  by_cases hconsumed : t ∈ consumed
  · cases change with
    | own => cases hconsumed
    | reset t₀ hfound₀ =>
      obtain rfl : t₀ = t := Option.mem_some_iff.mp hconsumed
      cases effect with
      | passwordReset used usable' resets _ =>
        obtain rfl : t₀ = used :=
          Option.some.inj (hfound₀.symm.trans (Option.filter_eq_some_iff.mp usable').1)
        refine ⟨_, resetTokenOf_use resets found, .inl ?_⟩
        rw [if_pos rfl]
        exact fun h => nomatch h
  · obtain ⟨t', hfound', hkeeps⟩ := keeps_of_effect effect found
    exact ⟨t', hfound', hkeeps.spent (others t ht user hconsumed) (Nat.le_refl _)⟩

end

/-- The change of a password leaves no reset token of the user that is accepted later, if every
token but the one it used was used or expired before. -/
theorem change_rejects_earlier_tokens (crypto : AuthCrypto) (settings : AuthSettings)
    (s : Store Db) (r : AuthRequest) (userId : Uuid) (now : Instant)
    (consumed : Option PasswordResetToken)
    (change : PasswordChange crypto s.db.accounts r (respond crypto settings s r) userId now consumed)
    (others : ∀ t ∈ s.db.accounts.passwordResetTokens.rows, t.userId = userId → t ∉ consumed →
      Spent now t) : RejectsEarlierTokens crypto settings s r userId := by
  intro rs env rawToken new t clock found user
  obtain ⟨t₁, hfound₁, hspent₁⟩ :=
    spent_of_change (exec_effect crypto settings s r) change others found user
  obtain ⟨t₂, hfound₂, hkeeps⟩ := keeps_of_run settings rs hfound₁
  have hnow : now ∈ readings r := by
    generalize respond crypto settings s r = response at change
    cases change <;> exact List.mem_cons_self
  have hle : now ≤ env.now 0 := by
    rw [ClockAdvances, List.flatMap_cons, List.pairwise_append] at clock
    exact clock.2.2 now hnow _ (by simp [readings])
  exact reset_rejected hfound₂ (hkeeps.spent hspent₁ hle)

/-- The sample user has asked for a reset token for each of the numbers. -/
def sampleResets (ks : List ℕ) : Store Db :=
  execAll sampleAuthCrypto sampleSettings sampleAccounts
    (ks.map fun k => .createPasswordResetToken (sampleAuthEnv k) sampleUser.email)

/-- The reset with the first token. -/
def sampleReset : AuthRequest :=
  .resetPassword (sampleAuthEnv 2) (sampleAuthEnv 0).rawToken "new password"

def sampleResetToken : PasswordResetToken :=
  sampleAuthCrypto.passwordResetToken (sampleAuthEnv 0) sampleUser

theorem change_rejects_earlier_tokens_sample :
    RejectsEarlierTokens sampleAuthCrypto sampleSettings (sampleResets [0]) sampleReset 1 := by
  have hrows : (sampleResets [0]).db.accounts.passwordResetTokens.rows = [sampleResetToken] := by
    decide +kernel
  have hresponse : respond sampleAuthCrypto sampleSettings (sampleResets [0]) sampleReset =
      .ok (.passwordReset true) := by decide +kernel
  have hfound : resetTokenOf sampleAuthCrypto (sampleResets [0]).db.accounts
      (sampleAuthEnv 0).rawToken = some sampleResetToken := by decide +kernel
  refine change_rejects_earlier_tokens sampleAuthCrypto sampleSettings (sampleResets [0]) sampleReset
    1 ((sampleAuthEnv 2).now 0) (some sampleResetToken) ?_ fun t ht _ hother => ?_
  · rw [hresponse]
    exact .reset sampleResetToken hfound
  · rw [hrows] at ht
    exact absurd (congrArg some (List.mem_singleton.mp ht).symm) hother

/-- The second of two tokens is accepted after the reset with the first. -/
theorem earlier_reset_token_accepted :
    PasswordChange sampleAuthCrypto (sampleResets [0, 1]).db.accounts sampleReset
        (respond sampleAuthCrypto sampleSettings (sampleResets [0, 1]) sampleReset) 1
        ((sampleAuthEnv 2).now 0) (some sampleResetToken) ∧
      ¬ RejectsEarlierTokens sampleAuthCrypto sampleSettings (sampleResets [0, 1]) sampleReset 1 := by
  have hresponse : respond sampleAuthCrypto sampleSettings (sampleResets [0, 1]) sampleReset =
      .ok (.passwordReset true) := by decide +kernel
  have hfound : resetTokenOf sampleAuthCrypto (sampleResets [0, 1]).db.accounts
      (sampleAuthEnv 0).rawToken = some sampleResetToken := by decide +kernel
  refine ⟨?_, fun h => h [] (sampleAuthEnv 3) (sampleAuthEnv 1).rawToken "newer password"
    (sampleAuthCrypto.passwordResetToken (sampleAuthEnv 1) sampleUser) (by decide) (by decide +kernel)
    rfl (by decide +kernel)⟩
  rw [hresponse]
  exact .reset sampleResetToken hfound

end NexusEngine.PasswordResetTokens
