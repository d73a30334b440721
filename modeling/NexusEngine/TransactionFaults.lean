import NexusEngine.TransactionalRequests

/-!
# Requests whose steps fail

Any read, flush or commit of a request may fail. A request that fails leaves the durable state as
it was. A request that commits once, and only reads after that, has committed all of its work or
nothing, whatever fails.
-/

namespace NexusEngine.TransactionalRequests

variable {Db W E α β : Type}

/-- How a request ends whose steps may fail. -/
structure FaultyOutcome (Db E α : Type) where
  result : Except E α
  db : Db
  committed : Bool

namespace Request

/-- Run a request alone, where `fault k` is the error with which the `k`-th step fails, if it
does. -/
def faulty (S : StatementSemantics Db W E) (fault : ℕ → Option E) :
    Request Db W E α → Bool → ℕ → Db → Db → ℕ → FaultyOutcome Db E α
  | .done value, committed, _, durable, _, _ => ⟨.ok value, durable, committed⟩
  | .raise error, committed, _, durable, _, _ => ⟨.error error, durable, committed⟩
  | .query next, committed, k, durable, work, sequence =>
    match fault k with
    | some error => ⟨.error error, durable, committed⟩
    | none => (next work).faulty S fault committed (k + 1) durable work sequence
  | .flush statements next, committed, k, durable, work, sequence =>
    match fault k with
    | some error => ⟨.error error, durable, committed⟩
    | none =>
      match S.applyAll (statements sequence) work with
      | none => ⟨.error S.rejected, durable, committed⟩
      | some work' => next.faulty S fault committed (k + 1) durable work' (sequence + 1)
  | .commit next, committed, k, durable, work, sequence =>
    match fault k with
    | some error => ⟨.error error, durable, committed⟩
    | none => next.faulty S fault true (k + 1) work work sequence

/-! ## Where a request commits -/

def ReadsOnly : Request Db W E α → Prop
  | .done _ => True
  | .raise _ => True
  | .query next => ∀ db, (next db).ReadsOnly
  | .flush _ _ => False
  | .commit _ => False

def NeverCommits : Request Db W E α → Prop
  | .done _ => True
  | .raise _ => True
  | .query next => ∀ db, (next db).NeverCommits
  | .flush _ next => next.NeverCommits
  | .commit _ => False

/-- Nothing is flushed or committed after the first commit. -/
def CommitsLast : Request Db W E α → Prop
  | .done _ => True
  | .raise _ => True
  | .query next => ∀ db, (next db).CommitsLast
  | .flush _ next => next.CommitsLast
  | .commit next => next.ReadsOnly

section

variable {p : Request Db W E α} {f : α → Request Db W E β}

theorem ReadsOnly.neverCommits (h : p.ReadsOnly) : p.NeverCommits := by
  induction p with
  | done value => trivial
  | raise error => trivial
  | query next ih => exact fun db => ih db (h db)
  | flush statements next _ => exact h.elim
  | commit next _ => exact h

theorem NeverCommits.commitsLast (h : p.NeverCommits) : p.CommitsLast := by
  induction p with
  | done value => trivial
  | raise error => trivial
  | query next ih => exact fun db => ih db (h db)
  | flush statements next ih => exact ih h
  | commit next _ => exact h.elim

theorem ReadsOnly.bind (h : p.ReadsOnly) (hf : ∀ value, (f value).ReadsOnly) :
    (p >>= f).ReadsOnly := by
  induction p with
  | done value => exact hf value
  | raise error => trivial
  | query next ih => exact fun db => ih db (h db)
  | flush statements next _ => exact h.elim
  | commit next _ => exact h.elim

theorem NeverCommits.bind (h : p.NeverCommits) (hf : ∀ value, (f value).NeverCommits) :
    (p >>= f).NeverCommits := by
  induction p with
  | done value => exact hf value
  | raise error => trivial
  | query next ih => exact fun db => ih db (h db)
  | flush statements next ih => exact ih h
  | commit next _ => exact h.elim

/-- What precedes the commit. -/
theorem NeverCommits.then (h : p.NeverCommits) (hf : ∀ value, (f value).CommitsLast) :
    (p >>= f).CommitsLast := by
  induction p with
  | done value => exact hf value
  | raise error => trivial
  | query next ih => exact fun db => ih db (h db)
  | flush statements next ih => exact ih h
  | commit next _ => exact h.elim

/-- What follows the commit. -/
theorem CommitsLast.then (h : p.CommitsLast) (hf : ∀ value, (f value).ReadsOnly) :
    (p >>= f).CommitsLast := by
  induction p with
  | done value => exact (hf value).neverCommits.commitsLast
  | raise error => trivial
  | query next ih => exact fun db => ih db (h db)
  | flush statements next ih => exact ih h
  | commit next _ => exact ReadsOnly.bind h hf

theorem CommitsLast.answer {f : α → β} (h : p.CommitsLast) :
    (p >>= fun value => return f value).CommitsLast := h.then fun _ => trivial

theorem readsOnly_select (read : Db → α) : (select read : Request Db W E α).ReadsOnly :=
  fun _ => trivial

theorem neverCommits_send (statements : ℕ → List W) :
    (send statements : Request Db W E Unit).NeverCommits := trivial

theorem commitsLast_commit {f : Unit → Request Db W E α} (h : (f ()).ReadsOnly) :
    (commitTransaction >>= f).CommitsLast := h

/-- The rule of what precedes the commit, where its value does not matter. -/
theorem NeverCommits.wp_bind {S : StatementSemantics Db W E}
    {post : Except E β → Db → Db → ℕ → Prop} {durable work : Db} {n : ℕ} (h : p.NeverCommits)
    (failed : ∀ error work' k, post (.error error) durable work' k)
    (next : ∀ value work' k, (f value).wp S post durable work' k) :
    (p >>= f).wp S post durable work n := by
  induction p generalizing work n with
  | done value => exact next value work n
  | raise error =>
    rw [raise_bind, wp_raise]
    exact failed error work n
  | query read ih =>
    rw [query_bind, wp_query]
    exact ih work (h work)
  | flush statements rest ih =>
    rw [flush_bind, wp_flush]
    exact ⟨fun _ => failed _ _ _, fun _ _ => ih h⟩
  | commit rest _ => exact h.elim

end

/-! ## Faults -/

/-- A request that only reads leaves the durable state, and its answer is the one it has without
faults. -/
theorem ReadsOnly.faulty {p : Request Db W E α} (h : p.ReadsOnly) (S : StatementSemantics Db W E)
    (fault : ℕ → Option E) (committed : Bool) (k : ℕ) (durable work : Db) (sequence : ℕ) :
    let outcome := p.faulty S fault committed k durable work sequence
    outcome.db = durable ∧ outcome.committed = committed ∧
      (p.serial S durable work sequence).db = durable ∧
      ∀ value, outcome.result = .ok value →
        (p.serial S durable work sequence).result = .ok value := by
  induction p generalizing k with
  | done value => exact ⟨rfl, rfl, rfl, fun _ => id⟩
  | raise error => exact ⟨rfl, rfl, rfl, fun _ => id⟩
  | query next ih =>
    have hnext := ih work (h work) (k + 1)
    dsimp only [Request.faulty]
    cases fault k with
    | none => exact hnext
    | some error => exact ⟨rfl, rfl, hnext.2.2.1, fun _ hvalue => nomatch hvalue⟩
  | flush statements next _ => exact h.elim
  | commit next _ => exact h.elim

/-- The durable state is the one from before until the commit, and then the one that the request
leaves without faults. A request that is answered has met no fault. -/
structure Atomic (durable : Db) (final : Outcome Db E α) (outcome : FaultyOutcome Db E α) :
    Prop where
  uncommitted : outcome.committed = false → outcome.db = durable
  committed : outcome.committed = true → outcome.db = final.db
  answered : ∀ value, outcome.result = .ok value →
    final.result = .ok value ∧ outcome.db = final.db

theorem Atomic.failed (durable : Db) (final : Outcome Db E α) (error : E) :
    Atomic durable final ⟨.error error, durable, false⟩ where
  uncommitted _ := rfl
  committed hcommitted := nomatch hcommitted
  answered _ hvalue := nomatch hvalue

theorem CommitsLast.atomic {p : Request Db W E α} (h : p.CommitsLast)
    (S : StatementSemantics Db W E) (fault : ℕ → Option E) (k : ℕ) (durable work : Db)
    (sequence : ℕ) :
    Atomic durable (p.serial S durable work sequence)
      (p.faulty S fault false k durable work sequence) := by
  induction p generalizing k work sequence with
  | done value => exact ⟨fun _ => rfl, fun _ => rfl, fun _ hvalue => ⟨hvalue, rfl⟩⟩
  | raise error => exact .failed _ _ _
  | query next ih =>
    have hnext := ih work (h work) (k + 1) work sequence
    dsimp only [Request.faulty, Request.serial]
    cases fault k with
    | none => exact hnext
    | some error => exact .failed _ _ _
  | flush statements next ih =>
    dsimp only [Request.faulty, Request.serial]
    cases fault k with
    | none =>
      cases S.applyAll (statements sequence) work with
      | none => exact .failed _ _ _
      | some work' => exact ih h (k + 1) work' (sequence + 1)
    | some error => exact .failed _ _ _
  | commit next _ =>
    dsimp only [Request.faulty, Request.serial]
    cases fault k with
    | none =>
      obtain ⟨hdb, hcommitted, hserial, hresult⟩ :=
        ReadsOnly.faulty h S fault true (k + 1) work work sequence
      refine ⟨fun hnot => ?_, fun _ => hdb.trans hserial.symm, fun value hvalue =>
        ⟨hresult value hvalue, hdb.trans hserial.symm⟩⟩
      rw [hcommitted] at hnot
      cases hnot
    | some error => exact .failed _ _ _

end Request

end NexusEngine.TransactionalRequests
