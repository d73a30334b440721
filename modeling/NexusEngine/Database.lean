import NexusEngine.AuditLogTable
import NexusEngine.HsmTables
import NexusEngine.ConfigurationTable
import NexusEngine.ParameterTables
import NexusEngine.AccountTables
import NexusEngine.AnomalyTables
import NexusEngine.RbacTables
import NexusEngine.ReadCommittedSessions

/-!
# The database of the engine

All tables in one store, the statements the services send to it, and the requests that
services are. A statement of one service leaves the tables of the others alone.
-/

namespace NexusEngine.Database

open TransactionalRequests StoredColumns TenancyTables AuditLogTable HsmTables
  ConfigurationTable ParameterTables AccountTables AnomalyTables RbacTables

structure Db where
  tenancy : TenancyStore
  auditLog : List AuditLogEntry
  hsm : HsmStore
  configurations : Configurations
  parameters : ParameterStore
  accounts : AccountStore
  anomalies : AnomalyEvents
  rbac : RbacStore

inductive Statement where
  | insertAuditLogEntry (entry : NewAuditLogEntry) (sequence : ℕ)
  | hsm (statement : HsmStatement)
  | configuration (statement : ConfigurationStatement)
  | parameter (statement : ParameterStatement)
  | account (statement : AccountStatement)
  | anomaly (statement : AnomalyStatement)
  | tenancy (statement : TenancyStatement)
  | rbac (statement : RbacStatement)
  | deleteTenant (id : Uuid)
  deriving DecidableEq

/-- What a request can fail with: a response of the application, a statement that the
database rejects, or an exception the code does not catch. -/
inductive ServiceError where
  | http (status : ℕ) (detail : String)
  | rejected
  | exception
  deriving DecidableEq, Repr

/-- The trigger on the audit log: it raises where a row would be updated or deleted. -/
def rejectAuditLogMutation (log : List AuditLogEntry) (mutated : AuditLogEntry → Bool) :
    Option (List AuditLogEntry) := if log.any mutated then none else some log

/-- Delete a tenant. `ON DELETE SET NULL` updates the rows that refer to it, those of the audit
log too. -/
def deleteTenant (id : Uuid) (db : Db) : Option Db :=
  (rejectAuditLogMutation db.auditLog fun r => r.tenantId == some id).map fun log =>
    { db with
      tenancy := db.tenancy.deleteTenant id
      auditLog := log
      anomalies := clearTenant id db.anomalies }

def Statement.apply : Statement → Db → Option Db
  | .insertAuditLogEntry entry sequence, db =>
    (AuditLogTable.insertAuditLogEntry db.tenancy.tenants.rows entry sequence db.auditLog).map
      fun log => { db with auditLog := log }
  | .hsm statement, db => (statement.apply db.hsm).map fun hsm => { db with hsm := hsm }
  | .configuration statement, db =>
    (statement.apply db.configurations).map fun configurations =>
      { db with configurations := configurations }
  | .parameter statement, db =>
    (statement.apply db.parameters).map fun parameters => { db with parameters := parameters }
  | .account statement, db =>
    (statement.apply db.accounts).map fun accounts => { db with accounts := accounts }
  | .anomaly statement, db =>
    (statement.apply (fun id => (db.tenancy.tenants.find? id).isSome) db.anomalies).map
      fun anomalies => { db with anomalies := anomalies }
  | .tenancy statement, db =>
    (statement.apply db.tenancy).map fun tenancy => { db with tenancy := tenancy }
  | .rbac statement, db =>
    (statement.apply (fun id => (db.accounts.users.find? id).isSome) db.rbac).map fun rbac =>
      { db with rbac := rbac }
  | .deleteTenant id, db => Database.deleteTenant id db

/-- A statement waits for an open transaction that holds the same row or the same value of
a unique column. -/
def Statement.conflicts : Statement → Statement → Bool
  | .insertAuditLogEntry entry _, .insertAuditLogEntry entry' _ =>
    entry.id == entry'.id || entry.entryHash == entry'.entryHash
  | .hsm statement, .hsm statement' => statement.conflicts statement'
  | .configuration statement, .configuration statement' => statement.conflicts statement'
  | .parameter statement, .parameter statement' => statement.conflicts statement'
  | .account statement, .account statement' => statement.conflicts statement'
  | .anomaly statement, .anomaly statement' => statement.conflicts statement'
  | .tenancy statement, .tenancy statement' => statement.conflicts statement'
  | .rbac statement, .rbac statement' => statement.conflicts statement'
  | .deleteTenant id, .deleteTenant id' => id == id'
  | .deleteTenant id, .insertAuditLogEntry entry _ => entry.tenantId == some id
  | .insertAuditLogEntry entry _, .deleteTenant id => entry.tenantId == some id
  | _, _ => false

def postgres : StatementSemantics Db Statement ServiceError where
  apply := Statement.apply
  conflicts := Statement.conflicts
  rejected := .rejected

abbrev Service (α : Type) := Request Db Statement ServiceError α

/-- The row that was looked for, or a failure. -/
def found {α : Type} (row : Option α) (error : ServiceError) : Service α :=
  match row with
  | none => .raise error
  | some row => .done row

def ensure (c : Prop) [Decidable c] (error : ServiceError) : Service Unit :=
  if c then .done () else .raise error

section

variable {α : Type} {S : StatementSemantics Db Statement ServiceError} {durable work : Db} {n : ℕ}

@[simp] theorem wp_found {row : Option α} {error : ServiceError}
    {post : Except ServiceError α → Db → Db → ℕ → Prop} :
    (found row error).wp S post durable work n ↔
      (row = none → post (.error error) durable work n) ∧
        ∀ r, row = some r → post (.ok r) durable work n := by
  cases row <;> simp [found]

/-- A row that is there is answered with. -/
theorem wp_found_of_some {row : Option α} {r : α} {error : ServiceError}
    {post : Except ServiceError α → Db → Db → ℕ → Prop} (hrow : row = some r)
    (h : post (.ok r) durable work n) : (found row error).wp S post durable work n := by
  rw [hrow, found, Request.wp_done]
  exact h

@[simp] theorem wp_ensure {c : Prop} [Decidable c] {error : ServiceError}
    {post : Except ServiceError Unit → Db → Db → ℕ → Prop} :
    (ensure c error).wp S post durable work n ↔
      (¬ c → post (.error error) durable work n) ∧ (c → post (.ok ()) durable work n) := by
  simp only [ensure, Request.wp_ite, Request.wp_done, Request.wp_raise]
  exact And.comm

/-- A check that passes. -/
theorem ensure_answers {c : Prop} [Decidable c] {error : ServiceError}
    {post : Except ServiceError Unit → Db → Db → ℕ → Prop} (hc : c)
    (h : post (.ok ()) durable work n) : (ensure c error).wp S post durable work n :=
  wp_ensure.mpr ⟨fun hnot => absurd hc hnot, fun _ => h⟩

end

/-- The request is answered, with a value. -/
def Answered {α : Type} (p : Service α) (s : Store Db) : Prop :=
  ∃ value, (p.serial postgres s.db s.db s.sequence).result = .ok value

theorem answered_of_wp {α : Type} {p : Service α} {s : Store Db}
    (h : p.wp postgres (fun result _ _ _ => ∃ value, result = .ok value) s.db s.db s.sequence) :
    Answered p s :=
  (Request.serial_sound h).elim fun _ hresult => hresult

section

open ReadCommittedSessions

variable {α β : Type} {S : StatementSemantics Db Statement ServiceError} {R : Db → Db → Prop}
  {G : Db → List Statement → ℕ → List Statement → Prop} {post : β → List Statement → Db → Prop}
  {pending : List Statement} {db : Db} {error : ServiceError}

theorem guarantees_found_bind {row : Option α} {f : α → Service β}
    (h : ∀ r, row = some r → Guarantees S R G (f r) post pending db) :
    Guarantees S R G (found row error >>= f) post pending db := by
  cases row with
  | none => exact Guarantees.raise
  | some r => exact h r rfl

theorem guarantees_ensure_bind {c : Prop} [Decidable c] {f : Unit → Service β}
    (h : c → Guarantees S R G (f ()) post pending db) :
    Guarantees S R G (ensure c error >>= f) post pending db := by
  by_cases hc : c
  · rw [ensure, if_pos hc]
    exact h hc
  · rw [ensure, if_neg hc]
    exact Guarantees.raise

end

def emptyDb : Db where
  tenancy := .empty
  auditLog := []
  hsm := ⟨.empty, .empty, .empty, .empty, .empty, .empty⟩
  configurations := .empty
  parameters := .empty
  accounts := .empty
  anomalies := .empty
  rbac := .empty

/-! ## What an accepted statement does

Each lemma says what a statement does to its own table. -/

theorem apply_insertAuditLogEntry {entry : NewAuditLogEntry} {sequence : ℕ} {db db' : Db} :
    postgres.apply (.insertAuditLogEntry entry sequence) db = some db' ↔
      ∃ row, entry.stored sequence = some row ∧
        admits db.tenancy.tenants.rows db.auditLog row = true ∧
        db' = { db with auditLog := db.auditLog ++ [row] } := by
  simp only [postgres, Statement.apply, Option.map_eq_some_iff, insertAuditLogEntry_eq_some]
  constructor
  · rintro ⟨log, ⟨row, hrow, hadmits, rfl⟩, rfl⟩
    exact ⟨row, hrow, hadmits, rfl⟩
  · rintro ⟨row, hrow, hadmits, rfl⟩
    exact ⟨_, ⟨row, hrow, hadmits, rfl⟩, rfl⟩

/-- A flush whose last statement inserts an entry. -/
theorem applyAll_insertAuditLogEntry {ws : List Statement} {entry : NewAuditLogEntry}
    {sequence : ℕ} {db db' : Db}
    (h : postgres.applyAll (ws ++ [.insertAuditLogEntry entry sequence]) db = some db') :
    ∃ mid row, postgres.applyAll ws db = some mid ∧ entry.stored sequence = some row ∧
      admits mid.tenancy.tenants.rows mid.auditLog row = true ∧
        db' = { mid with auditLog := mid.auditLog ++ [row] } := by
  rw [StatementSemantics.applyAll_append] at h
  obtain ⟨mid, hmid, hinsert⟩ := Option.bind_eq_some_iff.mp h
  rw [StatementSemantics.applyAll_singleton] at hinsert
  obtain ⟨row, hrow, hadmits, hdb'⟩ := apply_insertAuditLogEntry.mp hinsert
  exact ⟨mid, row, hmid, hrow, hadmits, hdb'⟩

theorem apply_hsm {statement : HsmStatement} {db db' : Db} :
    postgres.apply (.hsm statement) db = some db' ↔
      ∃ hsm, statement.apply db.hsm = some hsm ∧ db' = { db with hsm := hsm } := by
  simp only [postgres, Statement.apply, Option.map_eq_some_iff]
  exact exists_congr fun _ => and_congr_right fun _ => eq_comm

theorem applyAll_hsm_singleton {statement : HsmStatement} {db db' : Db}
    (h : postgres.applyAll [.hsm statement] db = some db') :
    ∃ hsm, statement.apply db.hsm = some hsm ∧ db' = { db with hsm := hsm } := by
  rw [StatementSemantics.applyAll_singleton] at h
  exact apply_hsm.mp h

theorem apply_configuration {statement : ConfigurationStatement} {db db' : Db} :
    postgres.apply (.configuration statement) db = some db' ↔
      ∃ configurations, statement.apply db.configurations = some configurations ∧
        db' = { db with configurations := configurations } := by
  simp only [postgres, Statement.apply, Option.map_eq_some_iff]
  exact exists_congr fun _ => and_congr_right fun _ => eq_comm

theorem applyAll_configuration_singleton {statement : ConfigurationStatement} {db db' : Db}
    (h : postgres.applyAll [.configuration statement] db = some db') :
    ∃ configurations, statement.apply db.configurations = some configurations ∧
      db' = { db with configurations := configurations } := by
  rw [StatementSemantics.applyAll_singleton] at h
  exact apply_configuration.mp h

theorem apply_parameter {statement : ParameterStatement} {db db' : Db} :
    postgres.apply (.parameter statement) db = some db' ↔
      ∃ parameters, statement.apply db.parameters = some parameters ∧
        db' = { db with parameters := parameters } := by
  simp only [postgres, Statement.apply, Option.map_eq_some_iff]
  exact exists_congr fun _ => and_congr_right fun _ => eq_comm

theorem apply_account {statement : AccountStatement} {db db' : Db} :
    postgres.apply (.account statement) db = some db' ↔
      ∃ accounts, statement.apply db.accounts = some accounts ∧
        db' = { db with accounts := accounts } := by
  simp only [postgres, Statement.apply, Option.map_eq_some_iff]
  exact exists_congr fun _ => and_congr_right fun _ => eq_comm

theorem apply_anomaly {statement : AnomalyStatement} {db db' : Db} :
    postgres.apply (.anomaly statement) db = some db' ↔
      ∃ anomalies, statement.apply (fun id => (db.tenancy.tenants.find? id).isSome) db.anomalies =
        some anomalies ∧ db' = { db with anomalies := anomalies } := by
  simp only [postgres, Statement.apply, Option.map_eq_some_iff]
  exact exists_congr fun _ => and_congr_right fun _ => eq_comm

theorem apply_tenancy {statement : TenancyStatement} {db db' : Db} :
    postgres.apply (.tenancy statement) db = some db' ↔
      ∃ tenancy, statement.apply db.tenancy = some tenancy ∧
        db' = { db with tenancy := tenancy } := by
  simp only [postgres, Statement.apply, Option.map_eq_some_iff]
  exact exists_congr fun _ => and_congr_right fun _ => eq_comm

theorem apply_rbac {statement : RbacStatement} {db db' : Db} :
    postgres.apply (.rbac statement) db = some db' ↔
      ∃ rbac, statement.apply (fun id => (db.accounts.users.find? id).isSome) db.rbac = some rbac ∧
        db' = { db with rbac := rbac } := by
  simp only [postgres, Statement.apply, Option.map_eq_some_iff]
  exact exists_congr fun _ => and_congr_right fun _ => eq_comm

theorem apply_deleteTenant {id : Uuid} {db db' : Db} :
    postgres.apply (.deleteTenant id) db = some db' ↔
      (∀ r ∈ db.auditLog, r.tenantId ≠ some id) ∧
        db' = { db with
          tenancy := db.tenancy.deleteTenant id, anomalies := clearTenant id db.anomalies } := by
  simp only [postgres, Statement.apply, deleteTenant, rejectAuditLogMutation,
    Option.map_eq_some_iff, Option.ite_none_left_eq_some, Option.some.injEq, List.any_eq_true,
    beq_iff_eq, not_exists, not_and]
  constructor
  · rintro ⟨log, ⟨hnone, rfl⟩, rfl⟩
    exact ⟨hnone, rfl⟩
  · rintro ⟨hnone, rfl⟩
    exact ⟨_, ⟨hnone, rfl⟩, rfl⟩

/-- A table changes only by its own statements. -/
structure Frame (w : Statement) (db db' : Db) : Prop where
  hsm : (∃ statement, w = .hsm statement ∧ statement.apply db.hsm = some db'.hsm) ∨
    db'.hsm = db.hsm
  configurations : (∃ statement, w = .configuration statement ∧
    statement.apply db.configurations = some db'.configurations) ∨
    db'.configurations = db.configurations
  parameters : (∃ statement, w = .parameter statement ∧
    statement.apply db.parameters = some db'.parameters) ∨ db'.parameters = db.parameters
  accounts : (∃ statement, w = .account statement ∧
    statement.apply db.accounts = some db'.accounts) ∨ db'.accounts = db.accounts

theorem apply_frame {w : Statement} {db db' : Db} (h : postgres.apply w db = some db') :
    Frame w db db' := by
  cases w with
  | insertAuditLogEntry entry n =>
    obtain ⟨_, -, -, rfl⟩ := apply_insertAuditLogEntry.mp h
    exact ⟨.inr rfl, .inr rfl, .inr rfl, .inr rfl⟩
  | hsm statement =>
    obtain ⟨_, hst, rfl⟩ := apply_hsm.mp h
    exact ⟨.inl ⟨statement, rfl, hst⟩, .inr rfl, .inr rfl, .inr rfl⟩
  | configuration statement =>
    obtain ⟨_, hst, rfl⟩ := apply_configuration.mp h
    exact ⟨.inr rfl, .inl ⟨statement, rfl, hst⟩, .inr rfl, .inr rfl⟩
  | parameter statement =>
    obtain ⟨_, hst, rfl⟩ := apply_parameter.mp h
    exact ⟨.inr rfl, .inr rfl, .inl ⟨statement, rfl, hst⟩, .inr rfl⟩
  | account statement =>
    obtain ⟨_, hst, rfl⟩ := apply_account.mp h
    exact ⟨.inr rfl, .inr rfl, .inr rfl, .inl ⟨statement, rfl, hst⟩⟩
  | anomaly statement =>
    obtain ⟨_, -, rfl⟩ := apply_anomaly.mp h
    exact ⟨.inr rfl, .inr rfl, .inr rfl, .inr rfl⟩
  | tenancy statement =>
    obtain ⟨_, -, rfl⟩ := apply_tenancy.mp h
    exact ⟨.inr rfl, .inr rfl, .inr rfl, .inr rfl⟩
  | rbac statement =>
    obtain ⟨_, -, rfl⟩ := apply_rbac.mp h
    exact ⟨.inr rfl, .inr rfl, .inr rfl, .inr rfl⟩
  | deleteTenant id =>
    obtain ⟨-, rfl⟩ := apply_deleteTenant.mp h
    exact ⟨.inr rfl, .inr rfl, .inr rfl, .inr rfl⟩

end NexusEngine.Database
