import NexusEngine.TransactionalRequests
import Mathlib.Data.Option.Defs

/-!
# Two runs of requests that only read

Two requests are alike on two states if they read the same way there and end in related values or
with one error. Nothing is flushed and nothing committed.
-/

namespace NexusEngine.TransactionalRequests.Request

variable {Db W E α β α' β' γ : Type}

inductive Alike (db db' : Db) (Q : α → β → Prop) : Request Db W E α → Request Db W E β → Prop where
  | done {value : α} {value' : β} (h : Q value value') : Alike db db' Q (.done value) (.done value')
  | raise (error : E) : Alike db db' Q (.raise error) (.raise error)
  | query {next : Db → Request Db W E α} {next' : Db → Request Db W E β}
      (h : Alike db db' Q (next db) (next' db')) : Alike db db' Q (.query next) (.query next')

namespace Alike

variable {db db' : Db} {Q : α → β → Prop} {P : α' → β' → Prop}

theorem select {read : Db → α} {read' : Db → β} (h : Q (read db) (read' db')) :
    Alike db db' Q (Request.select read : Request Db W E α) (Request.select read') :=
  .query (.done h)

theorem bind {p : Request Db W E α'} {p' : Request Db W E β'} {f : α' → Request Db W E α}
    {f' : β' → Request Db W E β} (h : Alike db db' P p p')
    (hf : ∀ value value', P value value' → Alike db db' Q (f value) (f' value')) :
    Alike db db' Q (p >>= f) (p' >>= f') := by
  induction h with
  | done h => exact hf _ _ h
  | raise error => exact .raise error
  | query _ ih => exact .query ih

/-- The responses agree in what they have in common. -/
theorem result_map {p : Request Db W E α} {p' : Request Db W E β} {view : α → γ} {view' : β → γ}
    (h : Alike db db' (fun value value' => view' value' = view value) p p')
    (S : StatementSemantics Db W E) (durable durable' : Db) (sequence sequence' : ℕ) :
    ((p'.serial S durable' db' sequence').result).map view' =
      ((p.serial S durable db sequence).result).map view := by
  induction h with
  | done h => exact congrArg Except.ok h
  | raise error => rfl
  | query _ ih => exact ih

end Alike

end NexusEngine.TransactionalRequests.Request
