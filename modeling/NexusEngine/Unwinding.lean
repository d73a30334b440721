import Mathlib.Data.List.Basic

/-!
# Noninterference by unwinding

A deterministic machine answers the calls of several parties. A party is not disturbed by the
others when the machine has a view that its own calls determine and foreign calls leave alone:
then the party sees what it would have seen alone.
-/

namespace NexusEngine.Unwinding

variable {State Call Answer : Type}

structure Machine (State Call Answer : Type) where
  next : State → Call → State
  answer : State → Call → Answer

namespace Machine

variable (M : Machine State Call Answer)

/-- The calls of a run with their answers. -/
def trace : State → List Call → List (Call × Answer)
  | _, [] => []
  | s, c :: cs => (c, M.answer s c) :: trace (M.next s c) cs

def final (s : State) (calls : List Call) : State := calls.foldl M.next s

@[simp] theorem trace_nil (s : State) : M.trace s [] = [] := rfl

@[simp] theorem trace_cons (s : State) (c : Call) (cs : List Call) :
    M.trace s (c :: cs) = (c, M.answer s c) :: M.trace (M.next s c) cs := rfl

@[simp] theorem final_nil (s : State) : M.final s [] = s := rfl

@[simp] theorem final_cons (s : State) (c : Call) (cs : List Call) :
    M.final s (c :: cs) = M.final (M.next s c) cs := rfl

/-- What every call preserves, a run preserves. -/
theorem final_preserves {P : State → Prop} (step : ∀ s c, P s → P (M.next s c)) {s : State}
    (calls : List Call) (h : P s) : P (M.final s calls) := by
  induction calls generalizing s with
  | nil => exact h
  | cons c cs ih => exact ih (step s c h)

/-- What relates each state with the next one relates the first with the last. -/
theorem final_relates {R : State → State → Prop} (refl : ∀ s, R s s)
    (trans : ∀ {a b c}, R a b → R b c → R a c) (step : ∀ s c, R s (M.next s c)) (s : State)
    (calls : List Call) : R s (M.final s calls) := by
  induction calls generalizing s with
  | nil => exact refl s
  | cons c cs ih => exact trans (step s c) (ih (M.next s c))

end Machine

/-- `view s t` says that the party, whose calls are `mine`, cannot tell `s` from `t`. -/
structure Unwinds (M : Machine State Call Answer) (mine : Call → Bool)
    (view : State → State → Prop) : Prop where
  answer : ∀ s t c, mine c = true → view s t → M.answer s c = M.answer t c
  own : ∀ s t c, mine c = true → view s t → view (M.next s c) (M.next t c)
  foreign : ∀ s t c, mine c = false → view s t → view (M.next s c) t

/-- The party gets the answers that it would have got alone, and ends where it would have
ended. -/
theorem Unwinds.noninterference {M : Machine State Call Answer} {mine : Call → Bool}
    {view : State → State → Prop} (h : Unwinds M mine view) {s t : State} (calls : List Call)
    (hview : view s t) :
    ((M.trace s calls).filter fun e => mine e.1) = M.trace t (calls.filter mine) ∧
      view (M.final s calls) (M.final t (calls.filter mine)) := by
  induction calls generalizing s t with
  | nil => exact ⟨rfl, hview⟩
  | cons c cs ih =>
    cases hc : mine c with
    | true =>
      obtain ⟨htrace, hfinal⟩ := ih (h.own s t c hc hview)
      simp only [Machine.trace_cons, Machine.final_cons, List.filter_cons, hc, if_true, htrace,
        h.answer s t c hc hview]
      exact ⟨trivial, hfinal⟩
    | false =>
      obtain ⟨htrace, hfinal⟩ := ih (h.foreign s t c hc hview)
      simp only [Machine.trace_cons, Machine.final_cons, List.filter_cons, hc, Bool.false_eq_true,
        if_false]
      exact ⟨htrace, hfinal⟩

end NexusEngine.Unwinding
