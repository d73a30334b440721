import NexusEngine.SessionInvariants
import NexusEngine.QuietRequests

/-!
# Services against interference

The rules of safe requests for the steps that the services share: a row that is looked for, a
check, and an append to the audit log.
-/

namespace NexusEngine.SafeServices

open TransactionalRequests ReadCommittedSessions Database AuditService AuditAppends

variable {α : Type} {R : Db → Db → Prop} {P K : Db → Prop} {error : ServiceError}

theorem safe_found (growth : Growth postgres R) {row : Option α} :
    Safe postgres R P K (found row error) fun r db => K db ∧ row = some r := Safe.found growth

theorem safe_ensure (growth : Growth postgres R) {c : Prop} [Decidable c] :
    Safe postgres R P K (ensure c error) fun _ db => K db ∧ c := Safe.ensure growth

theorem answers_found {row : Option α} :
    Answers P (fun r => row = some r) (found row error) := Answers.found

theorem answers_ensure {c : Prop} [Decidable c] : Answers P (fun _ => c) (ensure c error) :=
  Answers.ensure

/-- A response made of what was read. -/
theorem safe_answer (growth : Growth postgres R) {β : Type} {p : Service α} {f : α → β}
    (h : Safe postgres R P K p fun _ _ => True) :
    Safe postgres R P K (p >>= fun value => return f value) fun _ _ => True :=
  h.bind growth fun _ => Safe.done growth fun _ hk => hk

/-- The rule of an append: its entry names the tail of an earlier view. -/
theorem safe_append (growth : Growth postgres R) (hstable : Stable R K) {crypto : AuditCrypto}
    {env : AppendEnv} {unflushed : List Statement} {payload : AuditLogEntryCreate}
    (sends : ∀ view mid after signature n, K mid → R view mid → P mid →
      crypto.signHexDigest env.nonce (crypto.computeEntryHash (tailHash view.auditLog)
        (payloadFields env.now payload)) = some signature →
      postgres.applyAll (unflushed ++ [.insertAuditLogEntry
        (newEntry crypto env (tailHash view.auditLog) payload signature) n]) mid = some after →
      P after) :
    Safe postgres R P K (appendEntryInTransaction crypto env unflushed payload) fun _ => K := by
  rw [appendEntryInTransaction_eq]
  refine (Safe.select growth _).bind growth fun before => ?_
  refine (safe_found growth).bind growth fun signature => ?_
  -- what is known when the entry is sent: the hash is that of the tail of an earlier view
  have hknown : Stable R fun mid => (∃ view, P view ∧ K view ∧ R view mid ∧
      tailHash view.auditLog = before) ∧ crypto.signHexDigest env.nonce
        (crypto.computeEntryHash before (payloadFields env.now payload)) = some signature := by
    rintro a b hab ⟨⟨view, hp, hk, hview, htail⟩, hsign⟩
    exact ⟨⟨view, hp, hk, growth.trans _ _ _ hview hab, htail⟩, hsign⟩
  refine Safe.bind growth (Safe.send growth hknown ?_) fun _ => ?_
  · rintro mid after n ⟨⟨view, -, hk, hview, rfl⟩, hsign⟩ hmid happly
    exact sends view mid after signature n (hstable view mid hview hk) hview hmid hsign happly
  · have hread : (Request.select (fun db : Db => db.auditLog.find? fun r =>
        r.id = (newEntry crypto env before payload signature).id) >>= fun row =>
          found row .exception : Service _).ReadsOnly :=
      (Request.readsOnly_select _).bind fun row => AuditedOperations.found_readsOnly row _
    refine (Safe.of_readsOnly growth hknown hread).mono (fun _ h => h) ?_
    rintro _ db ⟨⟨view, -, hk, hview, -⟩, -⟩
    exact hstable view db hview hk

end NexusEngine.SafeServices
