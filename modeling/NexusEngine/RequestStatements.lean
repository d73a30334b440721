import NexusEngine.TransactionFaults

/-!
# The statements of a request

Some facts about a request need no more than which statements it may ever send, whatever it reads.
A relation that every one of these statements keeps holds between the states before and after the
request. A request that sends statements that no state takes is never answered.
-/

namespace NexusEngine.TransactionalRequests

variable {Db W E α β : Type}

namespace Request

/-- Every statement that the request sends, whatever it reads, satisfies the predicate. -/
def Sends (P : W → Prop) : Request Db W E α → Prop
  | .done _ => True
  | .raise _ => True
  | .query next => ∀ db, (next db).Sends P
  | .flush statements next => (∀ n, ∀ w ∈ statements n, P w) ∧ next.Sends P
  | .commit next => next.Sends P

section

variable {P Q : W → Prop} {p : Request Db W E α} {f : α → Request Db W E β}

theorem Sends.mono (h : p.Sends P) (himp : ∀ w, P w → Q w) : p.Sends Q := by
  induction p with
  | done value => trivial
  | raise error => trivial
  | query next ih => exact fun db => ih db (h db)
  | flush statements next ih => exact ⟨fun n w hw => himp w (h.1 n w hw), ih h.2⟩
  | commit next ih => exact ih h

theorem ReadsOnly.sends (h : p.ReadsOnly) : p.Sends P := by
  induction p with
  | done value => trivial
  | raise error => trivial
  | query next ih => exact fun db => ih db (h db)
  | flush statements next _ => exact h.elim
  | commit next _ => exact h.elim

theorem sends_any (p : Request Db W E α) : p.Sends fun _ => True := by
  induction p with
  | done value => trivial
  | raise error => trivial
  | query next ih => exact ih
  | flush statements next ih => exact ⟨fun _ _ _ => trivial, ih⟩
  | commit next ih => exact ih

theorem Sends.bind (h : p.Sends P) (hf : ∀ value, (f value).Sends P) : (p >>= f).Sends P := by
  induction p with
  | done value => exact hf value
  | raise error => trivial
  | query next ih => exact fun db => ih db (h db)
  | flush statements next ih => exact ⟨h.1, ih h.2⟩
  | commit next ih => exact ih h

theorem Sends.answer {g : α → β} (h : p.Sends P) :
    (p >>= fun value => return g value).Sends P := h.bind fun _ => trivial

theorem sends_select (read : Db → α) : (select read : Request Db W E α).Sends P := fun _ => trivial

theorem sends_send {statements : ℕ → List W} (h : ∀ n, ∀ w ∈ statements n, P w) :
    (send statements : Request Db W E Unit).Sends P := ⟨h, trivial⟩

theorem sends_commit : (commitTransaction : Request Db W E Unit).Sends P := trivial

/-- A relation that is a preorder and that every statement keeps. -/
theorem Sends.serial_rel {S : StatementSemantics Db W E} {R : Db → Db → Prop}
    (refl : ∀ db, R db db) (trans : ∀ {a b c}, R a b → R b c → R a c)
    (step : ∀ w db db', P w → S.apply w db = some db' → R db db') (h : p.Sends P)
    {durable work : Db} (hwork : R durable work) (n : ℕ) :
    R durable (p.serial S durable work n).db := by
  induction p generalizing durable work n with
  | done value => exact refl durable
  | raise error => exact refl durable
  | query next ih => exact ih work (h work) hwork n
  | flush statements next ih =>
    dsimp only [serial]
    cases happly : S.applyAll (statements n) work with
    | none => exact refl durable
    | some work' =>
      have hsent : R work work' := S.applyAll_preserves (P := fun db => R work db)
        (fun w hw db db' happly hdb => trans hdb (step w db db' (h.1 n w hw) happly)) happly
        (refl work)
      exact ih h.2 (trans hwork hsent) (n + 1)
  | commit next ih => exact trans hwork (ih h (refl work) n)

end

end Request

/-- The frame rule of a request that runs alone. -/
theorem Store.exec_rel {S : StatementSemantics Db W E} {P : W → Prop} {R : Db → Db → Prop}
    {p : Request Db W E α} (refl : ∀ db, R db db) (trans : ∀ {a b c}, R a b → R b c → R a c)
    (step : ∀ w db db', P w → S.apply w db = some db' → R db db') (h : p.Sends P) (s : Store Db) :
    R s.db (s.exec S p).db :=
  h.serial_rel refl trans step (refl s.db) s.sequence

/-- What every statement of a store keeps, every request keeps. -/
theorem Store.exec_invariant {S : StatementSemantics Db W E} {P : Db → Prop}
    (step : ∀ w db db', S.apply w db = some db' → P db → P db') (p : Request Db W E α)
    (s : Store Db) (h : P s.db) : P (s.exec S p).db :=
  Store.exec_rel (R := fun db db' => P db → P db') (fun _ => id) (fun hab hbc ha => hbc (hab ha))
    (fun w db db' _ happly => step w db db' happly) (Request.sends_any p) s h

/-! ## Requests that are never answered -/

namespace Request

section

variable {S : StatementSemantics Db W E} {p : Request Db W E α} {f : α → Request Db W E β}

/-- Whatever the request reads, it raises an error or sends statements that no state takes. -/
def Fails (S : StatementSemantics Db W E) : Request Db W E α → Prop
  | .done _ => False
  | .raise _ => True
  | .query next => ∀ db, (next db).Fails S
  | .flush statements next => (∀ n db, S.applyAll (statements n) db = none) ∨ next.Fails S
  | .commit next => next.Fails S

theorem Fails.bind (h : p.Fails S) : (p >>= f).Fails S := by
  induction p with
  | done value => exact h.elim
  | raise error => trivial
  | query next ih => exact fun db => ih db (h db)
  | flush statements next ih =>
    rcases h with hnone | hnext
    · exact .inl hnone
    · exact .inr (ih hnext)
  | commit next ih => exact ih h

/-- What follows fails, whatever precedes it. -/
theorem fails_bind (p : Request Db W E α) (h : ∀ value, (f value).Fails S) :
    (p >>= f).Fails S := by
  induction p with
  | done value => exact h value
  | raise error => trivial
  | query next ih => exact fun db => ih db
  | flush statements next ih => exact .inr ih
  | commit next ih => exact ih

theorem fails_send {statements : ℕ → List W} (h : ∀ n db, S.applyAll (statements n) db = none) :
    (send statements : Request Db W E Unit).Fails S := .inl h

/-- Statements that include one that no state takes are taken by no state. -/
theorem applyAll_concat_none {ws : List W} {w : W} (h : ∀ db, S.apply w db = none) (db : Db) :
    S.applyAll (ws ++ [w]) db = none := by
  rw [StatementSemantics.applyAll_append]
  cases S.applyAll ws db with
  | none => rfl
  | some db' => exact (StatementSemantics.applyAll_singleton ..).trans (h db')

theorem Fails.wp (h : p.Fails S) {post : Except E α → Db → Db → ℕ → Prop} {durable work : Db}
    {n : ℕ} (failed : ∀ error durable work n, post (.error error) durable work n) :
    p.wp S post durable work n := by
  induction p generalizing durable work n with
  | done value => exact h.elim
  | raise error =>
    rw [wp_raise]
    exact failed _ _ _ _
  | query next ih =>
    rw [wp_query]
    exact ih work (h work)
  | flush statements next ih =>
    rw [wp_flush]
    refine ⟨fun _ => failed _ _ _ _, fun work' hw => ?_⟩
    rcases h with hnone | hnext
    · cases (hnone n work).symm.trans hw
    · exact ih hnext
  | commit next ih =>
    rw [wp_commit]
    exact ih h

end

end Request

end NexusEngine.TransactionalRequests
