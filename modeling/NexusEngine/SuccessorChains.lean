import Mathlib.Logic.Relation
import Mathlib.Order.Basic

/-!
# Chains of successors

Every node has at most one successor. Where the nodes can be ranked so that a successor ranks
above its predecessors, and no rank of a successor is above some bound, no chain returns and every
chain ends. Such a ranking survives new links to a node that has no successor of its own.
-/

namespace NexusEngine.SuccessorChains

variable {α : Type}

/-- `b` is the successor of `a`. -/
def Follows (next : α → Option α) (a b : α) : Prop := next a = some b

/-- Successors rank higher, and not without bound. -/
def Ranked (next : α → Option α) : Prop :=
  ∃ (rank : α → ℕ) (bound : ℕ), ∀ a b, next a = some b → rank a < rank b ∧ rank b ≤ bound

variable {next next' : α → Option α}

theorem ranked_none (h : ∀ a, next a = none) : Ranked next := by
  refine ⟨fun _ => 0, 0, fun a b hab => ?_⟩
  rw [h a] at hab
  cases hab

theorem Ranked.mono (h : Ranked next) (hsub : ∀ a b, next' a = some b → next a = some b) :
    Ranked next' := by
  obtain ⟨rank, bound, hrank⟩ := h
  exact ⟨rank, bound, fun a b hab => hrank a b (hsub a b hab)⟩

/-- Links to a node that has no successor can be added: it comes to rank above all others. -/
theorem Ranked.link [DecidableEq α] (h : Ranked next) {top : α} (htop : next' top = none)
    (hlinks : ∀ a b, next' a = some b → next a = some b ∨ b = top) : Ranked next' := by
  obtain ⟨rank, bound, hrank⟩ := h
  refine ⟨fun a => if a = top then bound + 1 else min (rank a) bound, bound + 1, fun a b hab => ?_⟩
  have hne : a ≠ top := by
    rintro rfl
    rw [htop] at hab
    cases hab
  dsimp only
  rw [if_neg hne]
  by_cases hb : b = top
  · rw [if_pos hb]
    omega
  · rw [if_neg hb]
    have hlink := hrank a b ((hlinks a b hab).resolve_right hb)
    omega

/-- Along a chain the rank grows. -/
theorem rank_lt_of_transGen {rank : α → ℕ} (hrank : ∀ a b, next a = some b → rank a < rank b)
    {a b : α} (h : Relation.TransGen (Follows next) a b) : rank a < rank b := by
  induction h with
  | single hab => exact hrank _ _ hab
  | tail _ hbc ih => exact Nat.lt_trans ih (hrank _ _ hbc)

theorem Ranked.acyclic (h : Ranked next) (a : α) : ¬ Relation.TransGen (Follows next) a a := by
  obtain ⟨rank, bound, hrank⟩ := h
  intro hcycle
  exact Nat.lt_irrefl _ (rank_lt_of_transGen (fun a b hab => (hrank a b hab).1) hcycle)

/-- Every chain ends at a node without a successor. The induction is on the room that is left
below the bound. -/
theorem Ranked.ends (h : Ranked next) (a : α) :
    ∃ b, Relation.ReflTransGen (Follows next) a b ∧ next b = none := by
  obtain ⟨rank, bound, hrank⟩ := h
  induction hroom : bound - rank a using Nat.strongRecOn generalizing a with
  | ind room ih =>
    cases hnext : next a with
    | none => exact ⟨a, .refl, hnext⟩
    | some b =>
      have hstep := hrank a b hnext
      obtain ⟨c, hbc, hc⟩ := ih (bound - rank b) (by omega) b rfl
      exact ⟨c, .head hnext hbc, hc⟩

/-- What holds of a node and passes to successors holds at the end of its chain. -/
theorem reflTransGen_preserves {P : α → Prop} (step : ∀ a b, next a = some b → P a → P b) {a b : α}
    (h : Relation.ReflTransGen (Follows next) a b) (ha : P a) : P b := by
  induction h with
  | refl => exact ha
  | tail _ hbc ih => exact step _ _ hbc ih

end NexusEngine.SuccessorChains
