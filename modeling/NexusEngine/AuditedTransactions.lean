import NexusEngine.AuditAppends

/-!
# Audited transactions

What a transaction of a service leaves behind is said by two lists: the statements it sends to the
tables of the services, and the entries it appends. The statements do not look at the log, so that
it does not matter how they and the entries follow each other.
-/

namespace NexusEngine.AuditedTransactions

open TransactionalRequests AuditLogTable Database AuditService AuditAppends

/-! ## Statements of the services -/

/-- A statement on the tables of one service. -/
def isDomain : Statement → Bool
  | .hsm _ => true
  | .configuration _ => true
  | .parameter _ => true
  | .anomaly _ => true
  | _ => false

def Domain (ws : List Statement) : Prop := ∀ w ∈ ws, isDomain w = true

theorem domain_nil : Domain [] := fun _ hw => nomatch hw

theorem domain_cons {w : Statement} {ws : List Statement} :
    Domain (w :: ws) ↔ isDomain w = true ∧ Domain ws := List.forall_mem_cons

theorem domain_append {ws ws' : List Statement} :
    Domain (ws ++ ws') ↔ Domain ws ∧ Domain ws' := List.forall_mem_append

theorem domain_singleton {w : Statement} (h : isDomain w = true) : Domain [w] :=
  domain_cons.mpr ⟨h, domain_nil⟩

/-- The log and the tenants of a database stay as they are. -/
structure SameLog (db db' : Db) : Prop where
  auditLog : db'.auditLog = db.auditLog
  tenancy : db'.tenancy = db.tenancy

theorem apply_domain {w : Statement} (h : isDomain w = true) (log : List AuditLogEntry) (db : Db) :
    postgres.apply w { db with auditLog := log } =
      (postgres.apply w db).map fun db' => { db' with auditLog := log } := by
  cases w with
  | hsm statement =>
    simp only [postgres, Statement.apply, Option.map_map]
    rfl
  | configuration statement =>
    simp only [postgres, Statement.apply, Option.map_map]
    rfl
  | parameter statement =>
    simp only [postgres, Statement.apply, Option.map_map]
    rfl
  | anomaly statement =>
    simp only [postgres, Statement.apply, Option.map_map]
    rfl
  | _ => cases h

/-- Statements of the services do the same on every log. -/
theorem applyAll_domain {ws : List Statement} (h : Domain ws) (log : List AuditLogEntry) (db : Db) :
    postgres.applyAll ws { db with auditLog := log } =
      (postgres.applyAll ws db).map fun db' => { db' with auditLog := log } := by
  induction ws generalizing db with
  | nil => rfl
  | cons w ws ih =>
    obtain ⟨hw, hws⟩ := domain_cons.mp h
    rw [StatementSemantics.applyAll_cons, StatementSemantics.applyAll_cons, apply_domain hw]
    cases postgres.apply w db with
    | none => rfl
    | some db' => exact ih hws db'

theorem apply_sameLog {w : Statement} (hw : isDomain w = true) {db db' : Db}
    (h : postgres.apply w db = some db') : SameLog db db' := by
  cases w with
  | hsm statement =>
    obtain ⟨_, -, rfl⟩ := apply_hsm.mp h
    exact ⟨rfl, rfl⟩
  | configuration statement =>
    obtain ⟨_, -, rfl⟩ := apply_configuration.mp h
    exact ⟨rfl, rfl⟩
  | parameter statement =>
    obtain ⟨_, -, rfl⟩ := apply_parameter.mp h
    exact ⟨rfl, rfl⟩
  | anomaly statement =>
    obtain ⟨_, -, rfl⟩ := apply_anomaly.mp h
    exact ⟨rfl, rfl⟩
  | _ => cases hw

theorem applyAll_sameLog {ws : List Statement} (hws : Domain ws) {db db' : Db}
    (h : postgres.applyAll ws db = some db') : SameLog db db' := by
  refine postgres.applyAll_preserves (P := fun d => SameLog db d) (fun w hw d d' happly hd => ?_) h
    ⟨rfl, rfl⟩
  have hstep := apply_sameLog (hws w hw) happly
  exact ⟨hstep.auditLog.trans hd.auditLog, hstep.tenancy.trans hd.tenancy⟩

/-! ## Entries -/

/-- One append: what it draws from its surroundings, and its payload. -/
abbrev Append := AppendEnv × AuditLogEntryCreate

/-- The rows are what the log keeps of the appends, one row for each, in order, each after the
tail that it found. The numbers lie between two values of the identity counter. -/
inductive Recorded (crypto : AuditCrypto) :
    List AuditLogEntry → ℕ → List Append → List AuditLogEntry → ℕ → Prop where
  | nil {log : List AuditLogEntry} {n k : ℕ} (h : n ≤ k) : Recorded crypto log n [] [] k
  | cons {log rows : List AuditLogEntry} {row : AuditLogEntry} {a : Append} {as : List Append}
      {n m k : ℕ} (h : n ≤ m) (appended : AppendedAs crypto a.1 a.2 (tailHash log) m row)
      (rest : Recorded crypto (log ++ [row]) (m + 1) as rows k) :
      Recorded crypto log n (a :: as) (row :: rows) k

section

variable {crypto : AuditCrypto} {log rows rows' : List AuditLogEntry} {as as' : List Append}
  {n m k : ℕ}

theorem Recorded.le (h : Recorded crypto log n as rows k) : n ≤ k := by
  induction h with
  | nil h => exact h
  | cons h _ _ ih => omega

theorem Recorded.length (h : Recorded crypto log n as rows k) : rows.length = as.length := by
  induction h with
  | nil => rfl
  | cons _ _ _ ih => rw [List.length_cons, List.length_cons, ih]

theorem Recorded.append (h : Recorded crypto log n as rows m)
    (h' : Recorded crypto (log ++ rows) m as' rows' k) :
    Recorded crypto log n (as ++ as') (rows ++ rows') k := by
  induction h with
  | nil hle =>
    rw [List.append_nil] at h'
    cases h' with
    | nil hle' => exact .nil (Nat.le_trans hle hle')
    | cons hle' appended rest => exact .cons (Nat.le_trans hle hle') appended rest
  | cons hle appended _ ih =>
    rw [List.append_cons] at h'
    exact .cons hle appended (ih h')

theorem Recorded.later (h : Recorded crypto log n as rows m) (hle : m ≤ k) :
    Recorded crypto log n as rows k := by
  simpa using h.append (.nil hle)

theorem Recorded.singleton {a : Append} (h : Recorded crypto log n [a] rows k) :
    ∃ row m, rows = [row] ∧ AppendedAs crypto a.1 a.2 (tailHash log) m row := by
  cases h with
  | cons _ appended rest =>
    cases rest with
    | nil => exact ⟨_, _, rfl, appended⟩

/-- Each row is that of its append. -/
theorem Recorded.forall₂ (h : Recorded crypto log n as rows k) :
    List.Forall₂ (fun a row => ∃ before m, AppendedAs crypto a.1 a.2 before m row) as rows := by
  induction h with
  | nil => exact .nil
  | cons _ appended _ ih => exact .cons ⟨_, _, appended⟩ ih

/-- The numbers of the rows ascend. -/
theorem Recorded.ordered (h : Recorded crypto log n as rows k) :
    (∀ r ∈ rows, n ≤ r.sequence ∧ r.sequence < k) ∧
      rows.Pairwise fun r r' => r.sequence < r'.sequence := by
  induction h with
  | nil => exact ⟨fun r hr => (nomatch hr), .nil⟩
  | cons hle appended rest ih =>
    have hnumber := appended.sequence
    have hrest := rest.le
    refine ⟨fun r hr => ?_, List.pairwise_cons.mpr ⟨fun r hr => ?_, ih.2⟩⟩
    · rcases List.mem_cons.mp hr with rfl | hr
      · omega
      · have := ih.1 r hr
        omega
    · have := ih.1 r hr
      omega

end

/-! ## Transactions -/

/-- The transaction takes the database from `db` to `db'` by the statements and the appends. -/
structure Performed (crypto : AuditCrypto) (db : Db) (n : ℕ) (ws : List Statement)
    (as : List Append) (db' : Db) (k : ℕ) : Prop where
  outcome : ∃ mid rows, postgres.applyAll ws db = some mid ∧
    Recorded crypto db.auditLog n as rows k ∧
    db' = { mid with auditLog := db.auditLog ++ rows }

section

variable {crypto : AuditCrypto} {db db' db'' : Db} {ws ws' : List Statement} {as as' : List Append}
  {n m k : ℕ}

theorem Performed.refl (h : n ≤ k) : Performed crypto db n [] [] db k :=
  ⟨⟨db, [], rfl, .nil h, by simp⟩⟩

theorem Performed.start (crypto : AuditCrypto) (db : Db) (n : ℕ) :
    Performed crypto db n [] [] db n := .refl (Nat.le_refl n)

theorem Performed.le (h : Performed crypto db n ws as db' k) : n ≤ k := by
  obtain ⟨_, _, -, hrows, -⟩ := h.outcome
  exact hrows.le

theorem Performed.trans (h : Performed crypto db n ws as db' m) (hdomain : Domain ws')
    (h' : Performed crypto db' m ws' as' db'' k) :
    Performed crypto db n (ws ++ ws') (as ++ as') db'' k := by
  obtain ⟨mid, rows, hmid, hrows, rfl⟩ := h.outcome
  obtain ⟨mid', rows', hmid', hrows', rfl⟩ := h'.outcome
  rw [applyAll_domain hdomain, Option.map_eq_some_iff] at hmid'
  obtain ⟨last, hlast, rfl⟩ := hmid'
  refine ⟨⟨last, rows ++ rows', ?_, hrows.append hrows', ?_⟩⟩
  · rw [StatementSemantics.applyAll_append, hmid]
    exact hlast
  · rw [List.append_assoc]

theorem Performed.later (h : Performed crypto db n ws as db' m) (hle : m ≤ k) :
    Performed crypto db n ws as db' k := by
  simpa using h.trans domain_nil (.refl hle)

/-- Sending statements of the services alone. -/
theorem Performed.of_applyAll (hdomain : Domain ws) (h : postgres.applyAll ws db = some db')
    (hle : n ≤ k) : Performed crypto db n ws [] db' k :=
  ⟨⟨db', [], h, .nil hle, by rw [List.append_nil, ← (applyAll_sameLog hdomain h).auditLog]⟩⟩

/-- One flush that appends. -/
theorem Performed.of_append {a : Append} {row : AuditLogEntry} (hdomain : Domain ws)
    (h : postgres.applyAll ws db = some db')
    (appended : AppendedAs crypto a.1 a.2 (tailHash db.auditLog) n row) :
    Performed crypto db n ws [a] { db' with auditLog := db'.auditLog ++ [row] } (n + 1) := by
  refine ⟨⟨db', [row], h, .cons (Nat.le_refl n) appended (.nil (Nat.le_refl _)), ?_⟩⟩
  rw [(applyAll_sameLog hdomain h).auditLog]

/-- How a request ends that performs one of its plans or fails: a failure leaves the database. -/
inductive Ends (crypto : AuditCrypto) (plan : List Statement → List Append → Prop) (db : Db)
    (n : ℕ) {α : Type} : Except ServiceError α → Db → Db → ℕ → Prop where
  | failed {error : ServiceError} {work : Db} {k : ℕ} (h : n ≤ k) :
      Ends crypto plan db n (.error error) db work k
  | performed {result : Except ServiceError α} {ws : List Statement} {as : List Append}
      {db' work : Db} {k : ℕ} (planned : plan ws as) (h : Performed crypto db n ws as db' k) :
      Ends crypto plan db n result db' work k

theorem Ends.map {plan : List Statement → List Append → Prop} {α β : Type} {f : α → β}
    {result : Except ServiceError α} {work : Db} (h : Ends crypto plan db n result db' work k) :
    Ends crypto plan db n (result.map f) db' work k := by
  cases h with
  | failed h => exact .failed h
  | performed planned h => exact .performed planned h

theorem Ends.mono {plan plan' : List Statement → List Append → Prop} {α : Type}
    {result : Except ServiceError α} {work : Db} (h : Ends crypto plan db n result db' work k)
    (himp : ∀ ws as, plan ws as → plan' ws as) : Ends crypto plan' db n result db' work k := by
  cases h with
  | failed h => exact .failed h
  | performed planned h => exact .performed (himp _ _ planned) h

/-- What a request that runs alone leaves. -/
theorem exec_of_ends {plan : List Statement → List Append → Prop} {α : Type} {p : Service α}
    (s : Store Db)
    (h : p.wp postgres (Ends crypto plan s.db s.sequence) s.db s.db s.sequence) :
    ((s.exec postgres p).db = s.db ∧ s.sequence ≤ (s.exec postgres p).sequence) ∨
      ∃ ws as, plan ws as ∧ Performed crypto s.db s.sequence ws as (s.exec postgres p).db
        (s.exec postgres p).sequence := by
  refine Store.exec_sound (P := fun db k => (db = s.db ∧ s.sequence ≤ k) ∨
    ∃ ws as, plan ws as ∧ Performed crypto s.db s.sequence ws as db k) s (Request.wp_mono h ?_)
  intro result durable work k hends
  cases hends with
  | failed hle => exact .inl ⟨rfl, hle⟩
  | performed planned hperformed => exact .inr ⟨_, _, planned, hperformed⟩

/-- A request that is answered has performed a plan. -/
theorem performed_of_ok {plan : List Statement → List Append → Prop} {α : Type} {p : Service α}
    {s : Store Db} {value : α}
    (h : p.wp postgres (Ends crypto plan s.db s.sequence) s.db s.db s.sequence)
    (ok : (p.serial postgres s.db s.db s.sequence).result = .ok value) :
    ∃ ws as, plan ws as ∧ Performed crypto s.db s.sequence ws as (s.exec postgres p).db
      (s.exec postgres p).sequence := by
  obtain ⟨_, hends⟩ := Request.serial_sound h
  rw [ok] at hends
  cases hends with
  | performed planned hperformed => exact ⟨_, _, planned, hperformed⟩

/-! ## Rules -/

/-- The rule of an append that follows what a transaction has performed. -/
theorem append_performs {env : AppendEnv} {unflushed : List Statement}
    {payload : AuditLogEntryCreate} {durable work : Db}
    {post : Except ServiceError AuditLogEntry → Db → Db → ℕ → Prop}
    (hwork : Performed crypto db n ws as work m) (hdomain : Domain unflushed)
    (failed : ∀ error k, m ≤ k → post (.error error) durable work k)
    (appended : ∀ row work', Performed crypto db n (ws ++ unflushed) (as ++ [(env, payload)]) work'
      (m + 1) → post (.ok row) durable work' (m + 1)) :
    (appendEntryInTransaction crypto env unflushed payload).wp postgres post durable work m :=
  appendEntryInTransaction_wp failed fun _ row hsent happended _ =>
    appended row _ (hwork.trans hdomain (.of_append hdomain hsent happended))

/-- The rule of a flush without an append. -/
theorem send_performs {sent : List Statement} {durable work : Db}
    {post : Except ServiceError Unit → Db → Db → ℕ → Prop}
    (hwork : Performed crypto db n ws as work m) (hdomain : Domain sent)
    (failed : ∀ error, post (.error error) durable work (m + 1))
    (performed : ∀ work', postgres.applyAll sent work = some work' →
      Performed crypto db n (ws ++ sent) as work' (m + 1) → post (.ok ()) durable work' (m + 1)) :
    (Request.send fun _ => sent).wp postgres post durable work m := by
  refine Request.wp_send.mpr ⟨fun _ => failed _, fun work' hsent => performed work' hsent ?_⟩
  have hsend : Performed crypto work m sent [] work' (m + 1) :=
    .of_applyAll hdomain hsent (Nat.le_succ m)
  simpa using hwork.trans hdomain hsend

end

end NexusEngine.AuditedTransactions
