import NexusEngine.AuditSerialLogs
import NexusEngine.AuditedTransactions
import NexusEngine.MetadataSanitisation

/-!
# Trails in the audit log

A trail is what a query selects from the log, in sequence order. The rows of a transaction that
runs alone are numbered after those of the log, so that a trail grows at its end, by the rows that
the transaction appends and the query selects.
-/

namespace NexusEngine.AuditTrails

open TransactionalRequests JsonDocuments StoredColumns AuditLogTable Database AuditService
  AuditAppends AuditSerialLogs AuditedTransactions MetadataSanitisation

variable {crypto : AuditCrypto} {log rows : List AuditLogEntry} {n k : ℕ}

/-- The rows of a log are numbered in their order, below the next number. -/
structure Ordered (log : List AuditLogEntry) (n : ℕ) : Prop where
  below : ∀ r ∈ log, r.sequence < n
  ascending : log.Pairwise fun r r' => r.sequence < r'.sequence

theorem ordered_nil (n : ℕ) : Ordered [] n := ⟨fun _ h => (nomatch h), .nil⟩

theorem Ordered.later (h : Ordered log n) (hle : n ≤ k) : Ordered log k :=
  { h with below := fun r hr => Nat.lt_of_lt_of_le (h.below r hr) hle }

theorem Ordered.append {as : List AuditedTransactions.Append} (h : Ordered log n)
    (hrows : Recorded crypto log n as rows k) : Ordered (log ++ rows) k := by
  obtain ⟨hbounds, hascending⟩ := hrows.ordered
  refine ⟨fun r hr => ?_, List.pairwise_append.mpr ⟨h.ascending, hascending, ?_⟩⟩
  · rcases List.mem_append.mp hr with hr | hr
    · exact Nat.lt_of_lt_of_le (h.below r hr) hrows.le
    · exact (hbounds r hr).2
  · intro r hr r' hr'
    exact Nat.lt_of_lt_of_le (h.below r hr) (hbounds r' hr').1

/-! ## Selected rows -/

/-- The selected rows, in sequence order. -/
def trail (selects : AuditLogEntry → Bool) (log : List AuditLogEntry) : List AuditLogEntry :=
  inSequenceOrder (log.filter selects)

theorem Ordered.trail_eq (h : Ordered log n) (selects : AuditLogEntry → Bool) :
    trail selects log = log.filter selects :=
  inSequenceOrder_of_ordered (h.ascending.filter _)

/-- A trail grows by the new rows that it selects. -/
theorem Ordered.trail_concat (h : Ordered log n) (h' : Ordered (log ++ rows) k)
    (selects : AuditLogEntry → Bool) :
    trail selects (log ++ rows) = trail selects log ++ rows.filter selects := by
  rw [h'.trail_eq, h.trail_eq, List.filter_append]

theorem Ordered.trail_append {as : List AuditedTransactions.Append} (h : Ordered log n)
    (hrows : Recorded crypto log n as rows k) (selects : AuditLogEntry → Bool) :
    trail selects (log ++ rows) = trail selects log ++ rows.filter selects :=
  h.trail_concat (h.append hrows) selects

/-- A transaction keeps the order of the log. -/
theorem Ordered.performed {db db' : Db} {ws : List Statement}
    {as : List AuditedTransactions.Append} (h : Ordered db.auditLog n)
    (hperformed : Performed crypto db n ws as db' k) : Ordered db'.auditLog k := by
  obtain ⟨_, _, -, hrows, rfl⟩ := hperformed.outcome
  exact h.append hrows

/-- A request that fails or performs a plan keeps the order of the log. -/
theorem Ordered.exec {plan : List Statement → List AuditedTransactions.Append → Prop} {α : Type}
    {p : Service α} {s : Store Db} (h : Ordered s.db.auditLog s.sequence)
    (hends : p.wp postgres (Ends crypto plan s.db s.sequence) s.db s.db s.sequence) :
    Ordered (s.exec postgres p).db.auditLog (s.exec postgres p).sequence := by
  rcases exec_of_ends s hends with ⟨hdb, hle⟩ | ⟨_, _, -, hperformed⟩
  · rw [hdb]
    exact h.later hle
  · exact h.performed hperformed

/-! ## Entries of the services -/

/-- The value of a key in the metadata of a row. -/
def metadataValue (row : AuditLogEntry) (key : String) : Option Json :=
  child row.metadataJson (.key key)

/-- A row keeps the values of the public keys, sanitised. -/
theorem metadataValue_appended {env : AppendEnv} {payload : AuditLogEntryCreate}
    {before : Option String} {row : AuditLogEntry} {key : String}
    (h : AppendedAs crypto env payload before n row) (hkey : isSensitiveKey key = false) :
    metadataValue row key = (child (.obj payload.metadataJson) (.key key)).map sanitizeMetadata := by
  rw [metadataValue, h.metadataJson]
  refine child_public (fun k hk => ?_) _
  cases hk
  exact hkey

end NexusEngine.AuditTrails
