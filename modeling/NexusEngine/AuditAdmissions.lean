import NexusEngine.AuditConcurrentAppends
import NexusEngine.AuditedTransactions
import NexusEngine.JsonEquality
import NexusEngine.MetadataSanitisation

/-!
# Appends that the log takes

A sequence of appends goes through where the columns take each payload and nothing that is drawn or
computed for an entry collides with the log or with another entry. The condition is on the whole
sequence, and what it says of the rest still holds when the first entry is in the log.
-/

namespace NexusEngine.AuditAdmissions

open TransactionalRequests JsonDocuments JsonEquality StoredColumns AuditLogTable TenancyTables
  Database AuditService AuditAppends AuditedTransactions MetadataSanitisation
open AuditConcurrentAppends (tailHash_concat)

/-- The hashes of entries that are appended one after the other. -/
def appendedHashes (crypto : AuditCrypto) : Option String → List Append → List String
  | _, [] => []
  | before, a :: as =>
    let hash := crypto.computeEntryHash before (payloadFields a.1.now a.2)
    hash :: appendedHashes crypto (some hash) as

/-- The log is numbered below `n`, and the identifiers and the hashes of the entries are new. -/
structure Fresh (crypto : AuditCrypto) (log : List AuditLogEntry) (n : ℕ) (as : List Append) :
    Prop where
  below : ∀ r ∈ log, r.sequence < n
  tail : (nullable (varchar 64) (tailHash log)).isSome
  ids : (log.map AuditLogEntry.id ++ as.map fun a => a.1.uuid4).Nodup
  hashes : (log.map AuditLogEntry.entryHash ++ appendedHashes crypto (tailHash log) as).Nodup

instance (crypto : AuditCrypto) (log : List AuditLogEntry) (n : ℕ) (as : List Append) :
    Decidable (Fresh crypto log n as) :=
  decidable_of_iff ((∀ r ∈ log, r.sequence < n) ∧ (nullable (varchar 64) (tailHash log)).isSome ∧
      (log.map AuditLogEntry.id ++ as.map fun a => a.1.uuid4).Nodup ∧
      (log.map AuditLogEntry.entryHash ++ appendedHashes crypto (tailHash log) as).Nodup)
    ⟨fun h => ⟨h.1, h.2.1, h.2.2.1, h.2.2.2⟩, fun h => ⟨h.below, h.tail, h.ids, h.hashes⟩⟩

/-- The columns take the payload, and its tenant exists. -/
structure Acceptable (crypto : AuditCrypto) (tenants : List Tenant)
    (payload : AuditLogEntryCreate) : Prop where
  columns : Appendable crypto payload none
  tenant : payload.tenantId.all fun id => tenants.any fun tenant => tenant.id == id

/-- The log takes the entries one after the other. -/
structure Admissible (crypto : AuditCrypto) (tenants : List Tenant) (log : List AuditLogEntry)
    (n : ℕ) (as : List Append) : Prop extends Fresh crypto log n as where
  payloads : ∀ a ∈ as, Acceptable crypto tenants a.2

/-- Sanitising keeps a document one that its column takes. -/
theorem isStandard_sanitizeMetadata {v : Json} (h : isStandard v = true) :
    isStandard (sanitizeMetadata v) = true := by
  induction v using Json.induct with
  | arr vs ih =>
    rw [isStandard_arr] at h
    rw [sanitizeMetadata_arr, isStandard_arr]
    intro w hw
    obtain ⟨v, hv, rfl⟩ := List.mem_map.mp hw
    exact ih v hv (h v hv)
  | obj kvs ih =>
    rw [isStandard_obj] at h
    rw [sanitizeMetadata_obj, isStandard_obj]
    intro kv' hkv'
    obtain ⟨kv, hkv, rfl⟩ := List.mem_map.mp hkv'
    by_cases hsensitive : isSensitiveKey kv.1 = true
    · rw [sanitizeMember_sensitive hsensitive]
      rfl
    · rw [sanitizeMember_public (Bool.eq_false_iff.mpr hsensitive)]
      exact ih kv hkv (h kv hkv)
  | _ => exact h

section

variable {crypto : AuditCrypto} {tenants : List Tenant} {log : List AuditLogEntry}
  {row : AuditLogEntry} {n m : ℕ} {a : Append} {as : List Append}

theorem Fresh.later (h : Fresh crypto log n as) (hle : n ≤ m) : Fresh crypto log m as :=
  { h with below := fun r hr => Nat.lt_of_lt_of_le (h.below r hr) hle }

theorem Admissible.later (h : Admissible crypto tenants log n as) (hle : n ≤ m) :
    Admissible crypto tenants log m as :=
  { h.toFresh.later hle with payloads := h.payloads }

/-- A payload is as acceptable after one entry as after another one. -/
theorem Acceptable.appendable {payload : AuditLogEntryCreate}
    (h : Acceptable crypto tenants payload) {before : Option String}
    (hbefore : (nullable (varchar 64) before).isSome) : Appendable crypto payload before :=
  { h.columns with prevHash := hbefore }

/-- The first row joins the log. -/
theorem Admissible.admits (h : Admissible crypto tenants log n (a :: as))
    (happended : AppendedAs crypto a.1 a.2 (tailHash log) n row) :
    admits tenants log row = true := by
  have hid : a.1.uuid4 ∉ log.map AuditLogEntry.id := by
    have hids := h.ids
    rw [List.map_cons, List.nodup_append] at hids
    exact fun hmem => hids.2.2 _ hmem _ List.mem_cons_self rfl
  have hhash : crypto.computeEntryHash (tailHash log) (payloadFields a.1.now a.2) ∉
      log.map AuditLogEntry.entryHash := by
    have hhashes := h.hashes
    rw [appendedHashes, List.nodup_append] at hhashes
    exact fun hmem => hhashes.2.2 _ hmem _ List.mem_cons_self rfl
  simp only [AuditLogTable.admits, Bool.and_eq_true, List.all_eq_true, bne_iff_ne, ne_eq]
  constructor
  · intro r hr
    refine ⟨⟨fun heq => hid ?_, ?_⟩, fun heq => hhash ?_⟩
    · rw [← happended.id, ← heq]
      exact List.mem_map_of_mem hr
    · have hbelow := h.below r hr
      rw [happended.sequence]
      omega
    · rw [← happended.entryHash, ← heq]
      exact List.mem_map_of_mem hr
  · rw [happended.tenantId]
    exact (h.payloads a List.mem_cons_self).tenant

/-- The log with the first row takes the other entries. -/
theorem Fresh.append (h : Fresh crypto log n (a :: as))
    (happended : AppendedAs crypto a.1 a.2 (tailHash log) n row) :
    Fresh crypto (log ++ [row]) (n + 1) as := by
  have htail : tailHash (log ++ [row]) = some row.entryHash :=
    tailHash_concat fun r hr => happended.sequence ▸ h.below r hr
  constructor
  · intro r hr
    rcases List.mem_append.mp hr with hr | hr
    · exact Nat.lt_succ_of_lt (h.below r hr)
    · rw [List.mem_singleton.mp hr, happended.sequence]
      exact Nat.lt_succ_self n
  · have hfits : varchar 64 row.entryHash = some row.entryHash := by
      have hlength := happended.entryHash_length
      rw [happended.entryHash] at hlength ⊢
      exact varchar_of_text (text_iff.mpr (TextEncodings.hexdigest_no_nul _)) hlength
    rw [htail, nullable, hfits]
    rfl
  · have hids := h.ids
    rw [List.map_cons, List.append_cons] at hids
    rw [List.map_append, List.map_singleton, happended.id]
    exact hids
  · have hhashes := h.hashes
    rw [appendedHashes, List.append_cons] at hhashes
    rw [htail, List.map_append, List.map_singleton, happended.entryHash]
    exact hhashes

theorem Admissible.append (h : Admissible crypto tenants log n (a :: as))
    (happended : AppendedAs crypto a.1 a.2 (tailHash log) n row) :
    Admissible crypto tenants (log ++ [row]) (n + 1) as :=
  { h.toFresh.append happended with
    payloads := fun a ha => h.payloads a (List.mem_cons_of_mem _ ha) }

end

section

variable {crypto : AuditCrypto} {a : Append} {as : List Append} {unflushed : List Statement}
  {post : Except ServiceError AuditLogEntry → Db → Db → ℕ → Prop} {durable work sent : Db} {n : ℕ}

/-- The rule of an append that is the next one of an admissible sequence. -/
theorem append_admitted (hdigest : ∀ bs, (crypto.sha256 bs).length = 32)
    (h : Admissible crypto work.tenancy.tenants.rows work.auditLog n (a :: as))
    (hsent : postgres.applyAll unflushed work = some sent) (hsame : SameLog work sent)
    (appended : ∀ row, AppendedAs crypto a.1 a.2 (tailHash work.auditLog) n row →
      Admissible crypto work.tenancy.tenants.rows (work.auditLog ++ [row]) (n + 1) as →
      post (.ok row) durable { sent with auditLog := sent.auditLog ++ [row] } (n + 1)) :
    (appendEntryInTransaction crypto a.1 unflushed a.2).wp postgres post durable work n := by
  apply appendEntryInTransaction_accepted hsent
  · exact (h.payloads a List.mem_cons_self).appendable h.tail
  · exact hdigest
  · intro row happended
    rw [hsame.auditLog, hsame.tenancy]
    exact h.admits happended
  · intro row happended
    exact appended row happended (h.append happended)

/-- An append by an actor whose name does not fit fails. -/
theorem append_refused {env : AppendEnv} {payload : AuditLogEntryCreate}
    (hactor : varchar 120 payload.actor = none)
    (failed : ∀ error k, n ≤ k → post (.error error) durable work k) :
    (appendEntryInTransaction crypto env unflushed payload).wp postgres post durable work n := by
  apply appendEntryInTransaction_wp failed
  intro sent row _ happended _
  have hstored := happended.actor
  rw [hactor] at hstored
  nomatch hstored

end

end NexusEngine.AuditAdmissions
