import Mathlib.Data.List.Basic

/-!
# Requests against a transactional store

A request is the tree of statements one handler issues: a query continues with the rows it
sees, a flush sends statements, a commit makes the statements of the transaction durable.
Nothing here fixes the store. What a statement does is a parameter, and a statement that a
constraint rejects ends the request and leaves the durable state as it was.
-/

namespace NexusEngine.TransactionalRequests

/-- The statements of a store. `apply` is `none` when a constraint rejects the statement,
and `conflicts w w'` says that `w'` has to wait for the open transaction that issued `w`. -/
structure StatementSemantics (Db W E : Type) where
  apply : W → Db → Option Db
  conflicts : W → W → Bool
  rejected : E

/-- One request. A flush takes the next value of the store's identity counter, which no
rollback gives back. -/
inductive Request (Db W E α : Type) where
  | done (value : α)
  | raise (error : E)
  | query (next : Db → Request Db W E α)
  | flush (statements : ℕ → List W) (next : Request Db W E α)
  | commit (next : Request Db W E α)

variable {Db W E α β : Type}

namespace Request

def bind : Request Db W E α → (α → Request Db W E β) → Request Db W E β
  | .done value, f => f value
  | .raise error, _ => .raise error
  | .query next, f => .query fun db => (next db).bind f
  | .flush statements next, f => .flush statements (next.bind f)
  | .commit next, f => .commit (next.bind f)

instance : Monad (Request Db W E) where
  pure := .done
  bind := bind

@[simp] theorem pure_eq (value : α) : (pure value : Request Db W E α) = .done value := rfl

@[simp] theorem done_bind (value : α) (f : α → Request Db W E β) :
    (Request.done value >>= f) = f value := rfl

@[simp] theorem raise_bind (error : E) (f : α → Request Db W E β) :
    (Request.raise error >>= f) = .raise error := rfl

@[simp] theorem query_bind (next : Db → Request Db W E α) (f : α → Request Db W E β) :
    (Request.query next >>= f) = .query fun db => next db >>= f := rfl

@[simp] theorem flush_bind (statements : ℕ → List W) (next : Request Db W E α)
    (f : α → Request Db W E β) :
    (Request.flush statements next >>= f) = .flush statements (next >>= f) := rfl

@[simp] theorem commit_bind (next : Request Db W E α) (f : α → Request Db W E β) :
    (Request.commit next >>= f) = .commit (next >>= f) := rfl

theorem bind_assoc {γ : Type} (p : Request Db W E α) (f : α → Request Db W E β)
    (g : β → Request Db W E γ) : (p >>= f >>= g) = p >>= fun value => f value >>= g := by
  induction p with
  | done value => rfl
  | raise error => rfl
  | query next ih => exact congrArg Request.query (funext ih)
  | flush statements next ih => exact congrArg (Request.flush statements) ih
  | commit next ih => exact congrArg Request.commit ih

theorem bind_done (p : Request Db W E α) : (p >>= fun value => .done value) = p := by
  induction p with
  | done value => rfl
  | raise error => rfl
  | query next ih => exact congrArg Request.query (funext ih)
  | flush statements next ih => exact congrArg (Request.flush statements) ih
  | commit next ih => exact congrArg Request.commit ih

/-- Read a projection of the rows the transaction sees. -/
def select (read : Db → β) : Request Db W E β := .query fun db => .done (read db)

/-- Send a list of statements. -/
def send (statements : ℕ → List W) : Request Db W E Unit := .flush statements (.done ())

def commitTransaction : Request Db W E Unit := .commit (.done ())

/-- The row that was looked for, or a failure. -/
def found (row : Option α) (error : E) : Request Db W E α :=
  match row with
  | none => .raise error
  | some row => .done row

def ensure (c : Prop) [Decidable c] (error : E) : Request Db W E Unit :=
  if c then .done () else .raise error

end Request

namespace StatementSemantics

variable (S : StatementSemantics Db W E)

def applyAll : List W → Db → Option Db
  | [], db => some db
  | w :: ws, db => (S.apply w db).bind (applyAll ws)

@[simp] theorem applyAll_nil (db : Db) : S.applyAll [] db = some db := rfl

@[simp] theorem applyAll_cons (w : W) (ws : List W) (db : Db) :
    S.applyAll (w :: ws) db = (S.apply w db).bind (S.applyAll ws) := rfl

theorem applyAll_singleton (w : W) (db : Db) : S.applyAll [w] db = S.apply w db :=
  Option.bind_fun_some _

theorem applyAll_append (ws ws' : List W) (db : Db) :
    S.applyAll (ws ++ ws') db = (S.applyAll ws db).bind (S.applyAll ws') := by
  induction ws generalizing db with
  | nil => rfl
  | cons w ws ih =>
    cases h : S.apply w db with
    | none => simp [h]
    | some next => simp [h, ih]

/-- What every single statement preserves, a list of statements preserves. -/
theorem applyAll_preserves {P : Db → Prop} {ws : List W}
    (step : ∀ w ∈ ws, ∀ db db', S.apply w db = some db' → P db → P db')
    {db db' : Db} (h : S.applyAll ws db = some db') (hp : P db) : P db' := by
  induction ws generalizing db with
  | nil => cases h; exact hp
  | cons w ws ih =>
    obtain ⟨next, hw, hws⟩ := Option.bind_eq_some_iff.mp h
    exact ih (fun v hv => step v (List.mem_cons_of_mem _ hv)) hws
      (step w List.mem_cons_self _ _ hw hp)

end StatementSemantics

/-! ## One request at a time -/

/-- How a request ends: what it returns, and the durable state it leaves. -/
structure Outcome (Db E α : Type) where
  result : Except E α
  db : Db
  sequence : ℕ

/-- Run a request to its end with nobody else on the store. The first state is the durable
one, the second the one the open transaction sees. -/
def Request.serial (S : StatementSemantics Db W E) :
    Request Db W E α → Db → Db → ℕ → Outcome Db E α
  | .done value, durable, _, sequence => ⟨.ok value, durable, sequence⟩
  | .raise error, durable, _, sequence => ⟨.error error, durable, sequence⟩
  | .query next, durable, work, sequence => (next work).serial S durable work sequence
  | .flush statements next, durable, work, sequence =>
    match S.applyAll (statements sequence) work with
    | none => ⟨.error S.rejected, durable, sequence + 1⟩
    | some work' => next.serial S durable work' (sequence + 1)
  | .commit next, _, work, sequence => next.serial S work work sequence

/-- The weakest precondition of a request that runs alone. The postcondition is about the
result, the durable state, the state the transaction sees and the identity counter. -/
def Request.wp (S : StatementSemantics Db W E) :
    Request Db W E α → (Except E α → Db → Db → ℕ → Prop) → Db → Db → ℕ → Prop
  | .done value, post, durable, work, sequence => post (.ok value) durable work sequence
  | .raise error, post, durable, work, sequence => post (.error error) durable work sequence
  | .query next, post, durable, work, sequence => (next work).wp S post durable work sequence
  | .flush statements next, post, durable, work, sequence =>
    match S.applyAll (statements sequence) work with
    | none => post (.error S.rejected) durable work (sequence + 1)
    | some work' => next.wp S post durable work' (sequence + 1)
  | .commit next, post, _, work, sequence => next.wp S post work work sequence

namespace Request

variable {S : StatementSemantics Db W E} {post : Except E α → Db → Db → ℕ → Prop}
  {durable work : Db} {sequence : ℕ}

@[simp] theorem wp_done (value : α) :
    (Request.done value : Request Db W E α).wp S post durable work sequence =
      post (.ok value) durable work sequence := rfl

@[simp] theorem wp_raise (error : E) :
    (Request.raise error : Request Db W E α).wp S post durable work sequence =
      post (.error error) durable work sequence := rfl

@[simp] theorem wp_query (next : Db → Request Db W E α) :
    (Request.query next).wp S post durable work sequence =
      (next work).wp S post durable work sequence := rfl

@[simp] theorem wp_flush (statements : ℕ → List W) (next : Request Db W E α) :
    (Request.flush statements next).wp S post durable work sequence ↔
      (S.applyAll (statements sequence) work = none →
        post (.error S.rejected) durable work (sequence + 1)) ∧
      ∀ work', S.applyAll (statements sequence) work = some work' →
        next.wp S post durable work' (sequence + 1) := by
  rw [wp]
  cases S.applyAll (statements sequence) work <;> simp

@[simp] theorem wp_commit (next : Request Db W E α) :
    (Request.commit next).wp S post durable work sequence =
      next.wp S post work work sequence := rfl

@[simp] theorem wp_ite (c : Prop) [Decidable c] (p q : Request Db W E α) :
    (if c then p else q).wp S post durable work sequence ↔
      (c → p.wp S post durable work sequence) ∧
        (¬ c → q.wp S post durable work sequence) := by
  split <;> simp [*]

@[simp] theorem wp_select (read : Db → α) :
    (select read : Request Db W E α).wp S post durable work sequence =
      post (.ok (read work)) durable work sequence := rfl

theorem wp_send {statements : ℕ → List W} {post : Except E Unit → Db → Db → ℕ → Prop} :
    (send statements : Request Db W E Unit).wp S post durable work sequence ↔
      (S.applyAll (statements sequence) work = none →
        post (.error S.rejected) durable work (sequence + 1)) ∧
      ∀ work', S.applyAll (statements sequence) work = some work' →
        post (.ok ()) durable work' (sequence + 1) := wp_flush ..

/-- A flush that the store accepts. -/
theorem wp_send_of_some {statements : ℕ → List W} {post : Except E Unit → Db → Db → ℕ → Prop}
    {work' : Db} (happly : S.applyAll (statements sequence) work = some work')
    (h : post (.ok ()) durable work' (sequence + 1)) :
    (send statements : Request Db W E Unit).wp S post durable work sequence := by
  rw [wp_send, happly]
  constructor
  · intro hnone
    nomatch hnone
  · intro next hnext
    exact Option.some.inj hnext ▸ h

/-- Sequencing: the first request has to establish what the second one needs, and an error
of the first is an error of both. -/
theorem wp_bind (p : Request Db W E α) (f : α → Request Db W E β)
    (post : Except E β → Db → Db → ℕ → Prop) (durable work : Db) (sequence : ℕ) :
    (p >>= f).wp S post durable work sequence ↔
      p.wp S (fun result durable' work' sequence' =>
        match result with
        | .ok value => (f value).wp S post durable' work' sequence'
        | .error error => post (.error error) durable' work' sequence')
        durable work sequence := by
  induction p generalizing durable work sequence with
  | done value => exact Iff.rfl
  | raise error => exact Iff.rfl
  | query next ih => exact ih work durable work sequence
  | flush statements next ih =>
    rw [flush_bind, wp_flush, wp_flush]
    exact and_congr_right fun _ => forall_congr' fun work' =>
      imp_congr_right fun _ => ih durable work' (sequence + 1)
  | commit next ih => exact ih work work sequence

@[simp] theorem wp_found {row : Option α} {error : E} :
    (found row error : Request Db W E α).wp S post durable work sequence ↔
      (row = none → post (.error error) durable work sequence) ∧
        ∀ r, row = some r → post (.ok r) durable work sequence := by
  cases row <;> simp [found]

@[simp] theorem wp_ensure {c : Prop} [Decidable c] {error : E}
    {post : Except E Unit → Db → Db → ℕ → Prop} :
    (ensure c error : Request Db W E Unit).wp S post durable work sequence ↔
      (¬ c → post (.error error) durable work sequence) ∧
        (c → post (.ok ()) durable work sequence) := by
  simp only [ensure, wp_ite, wp_done, wp_raise]
  exact And.comm

theorem wp_return {value : α} (h : post (.ok value) durable work sequence) :
    (return value : Request Db W E α).wp S post durable work sequence := h

theorem wp_commitTransaction {post : Except E Unit → Db → Db → ℕ → Prop}
    (h : post (.ok ()) work work sequence) :
    (commitTransaction : Request Db W E Unit).wp S post durable work sequence := h

/-- What follows a commit starts from the committed state. -/
theorem wp_commitTransaction_bind {f : Unit → Request Db W E α}
    (h : (f ()).wp S post work work sequence) :
    (commitTransaction >>= f).wp S post durable work sequence := h

theorem wp_mono {p : Request Db W E α} {post' : Except E α → Db → Db → ℕ → Prop}
    (h : p.wp S post durable work sequence)
    (hpost : ∀ result durable' work' sequence', post result durable' work' sequence' →
      post' result durable' work' sequence') :
    p.wp S post' durable work sequence := by
  induction p generalizing durable work sequence with
  | done value => exact hpost _ _ _ _ h
  | raise error => exact hpost _ _ _ _ h
  | query next ih => exact ih work h
  | flush statements next ih =>
    rw [wp_flush] at h ⊢
    exact ⟨fun hnone => hpost _ _ _ _ (h.1 hnone), fun work' hw => ih (h.2 work' hw)⟩
  | commit next ih => exact ih h

/-- A request that is answered by a function of its value ends as it does. -/
theorem wp_answer {p : Request Db W E α} {f : α → β} {post : Except E β → Db → Db → ℕ → Prop}
    (h : p.wp S (fun result => post (result.map f)) durable work sequence) :
    (p >>= fun value => return f value).wp S post durable work sequence := by
  refine (wp_bind ..).mpr (wp_mono h fun result _ _ _ hpost => ?_)
  cases result with
  | ok value => exact wp_return hpost
  | error error => exact hpost

/-- What the precondition promises holds of the run. -/
theorem serial_sound {p : Request Db W E α} (h : p.wp S post durable work sequence) :
    ∃ work', post (p.serial S durable work sequence).result
      (p.serial S durable work sequence).db work' (p.serial S durable work sequence).sequence := by
  induction p generalizing durable work sequence with
  | done value => exact ⟨work, h⟩
  | raise error => exact ⟨work, h⟩
  | query next ih => exact ih work h
  | flush statements next ih =>
    rw [wp_flush] at h
    cases hw : S.applyAll (statements sequence) work with
    | none =>
      simp only [serial, hw]
      exact ⟨work, h.1 hw⟩
    | some work' =>
      simp only [serial, hw]
      exact ih (h.2 work' hw)
  | commit next ih => exact ih h

-- The rules above are the only way to compute with a precondition.
attribute [irreducible] wp

end Request

/-! ## Runs of whole requests -/

/-- A store between requests. -/
structure Store (Db : Type) where
  db : Db
  sequence : ℕ

def Store.exec (S : StatementSemantics Db W E) (s : Store Db) (p : Request Db W E α) :
    Store Db :=
  let outcome := p.serial S s.db s.db s.sequence
  ⟨outcome.db, outcome.sequence⟩

def Store.execAll (S : StatementSemantics Db W E) (s : Store Db)
    (ps : List (Request Db W E α)) : Store Db :=
  ps.foldl (fun s p => s.exec S p) s

@[simp] theorem Store.execAll_nil (S : StatementSemantics Db W E) (s : Store Db) :
    s.execAll S ([] : List (Request Db W E α)) = s := rfl

@[simp] theorem Store.execAll_cons (S : StatementSemantics Db W E) (s : Store Db)
    (p : Request Db W E α) (ps : List (Request Db W E α)) :
    s.execAll S (p :: ps) = (s.exec S p).execAll S ps := rfl

theorem Store.execAll_append (S : StatementSemantics Db W E) (s : Store Db)
    (ps qs : List (Request Db W E α)) :
    s.execAll S (ps ++ qs) = (s.execAll S ps).execAll S qs := List.foldl_append

/-- A run with one more request. -/
theorem Store.execAll_concat (S : StatementSemantics Db W E) {R : Type} (f : R → Request Db W E α)
    (s : Store Db) (rs : List R) (r : R) :
    s.execAll S ((rs ++ [r]).map f) = (s.execAll S (rs.map f)).exec S (f r) := by
  rw [List.map_append, execAll_append]
  rfl

/-- A place in a run with one more element is that element or a place in the run before. -/
theorem concat_eq_append_cons {R : Type} {rs before after : List R} {r r' : R} :
    rs ++ [r] = before ++ r' :: after ↔
      (rs = before ∧ r = r' ∧ after = []) ∨
        ∃ after', after = after' ++ [r] ∧ rs = before ++ r' :: after' := by
  constructor
  · intro heq
    rcases List.eq_nil_or_concat' after with rfl | ⟨after', last, rfl⟩
    · obtain ⟨hrs, hr⟩ := List.append_inj' heq rfl
      exact .inl ⟨hrs, List.singleton_inj.mp hr, rfl⟩
    · rw [← List.cons_append, ← List.append_assoc] at heq
      obtain ⟨hrs, hlast⟩ := List.append_inj' heq rfl
      exact .inr ⟨after', by rw [List.singleton_inj.mp hlast], hrs⟩
  · rintro (⟨rfl, rfl, rfl⟩ | ⟨after', rfl, rfl⟩)
    · rfl
    · rw [List.append_assoc, List.cons_append]

/-- The step lemma of serial runs. -/
theorem Store.exec_sound {S : StatementSemantics Db W E} {P : Db → ℕ → Prop}
    {p : Request Db W E α} (s : Store Db)
    (h : p.wp S (fun _ durable _ sequence => P durable sequence) s.db s.db s.sequence) :
    P (s.exec S p).db (s.exec S p).sequence :=
  (Request.serial_sound h).elim fun _ h => h

/-- The run lemma: what every request preserves that starts where it may, a run preserves whose
requests all do. -/
theorem Store.execAll_preserves {S : StatementSemantics Db W E} {R : Type}
    {f : R → Request Db W E α} {P : Store Db → Prop} {Q : Store Db → R → Prop} {s : Store Db}
    {rs : List R} (h : P s)
    (hcond : ∀ rs₁ r rs₂, rs = rs₁ ++ r :: rs₂ → Q (s.execAll S (rs₁.map f)) r)
    (step : ∀ s r, Q s r → P s → P (s.exec S (f r))) : P (s.execAll S (rs.map f)) := by
  induction rs generalizing s with
  | nil => exact h
  | cons r rs ih =>
    refine ih (step s r (hcond [] r rs rfl) h) fun rs₁ r' rs₂ heq => ?_
    exact hcond (r :: rs₁) r' rs₂ (congrArg (r :: ·) heq)

end NexusEngine.TransactionalRequests
