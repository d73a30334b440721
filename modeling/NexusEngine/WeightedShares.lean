import Mathlib.Algebra.Order.BigOperators.Group.List
import Mathlib.Algebra.Order.Floor.Ring
import Mathlib.Algebra.BigOperators.Ring.List
import Mathlib.Tactic.Linarith
import Mathlib.Tactic.Positivity

/-!
# Weighted shares and their rounding

The share of a list is the mean weight of the items that count. It lies between the bounds of
the weights, does not see the items that do not count, and grows with every weight. Rounding to
the nearest integer, with ties to the even one, keeps the order and the integers.
-/

namespace NexusEngine.WeightedShares

variable {K : Type} [Field K]

/-! ## Rounding half to even -/

section

variable [LinearOrder K] [FloorRing K]

def nearest (x : K) : ℤ :=
  if x - ⌊x⌋ < 1 / 2 ∨ x - ⌊x⌋ = 1 / 2 ∧ ⌊x⌋ % 2 = 0 then ⌊x⌋ else ⌊x⌋ + 1

theorem floor_le_nearest (x : K) : ⌊x⌋ ≤ nearest x := by
  unfold nearest
  split <;> omega

theorem nearest_le_floor_add_one (x : K) : nearest x ≤ ⌊x⌋ + 1 := by
  unfold nearest
  split <;> omega

variable [IsStrictOrderedRing K]

@[simp] theorem nearest_intCast (n : ℤ) : nearest (n : K) = n := by
  simp [nearest]

/-- Two numbers with the same integral part are compared by the rest, any other two by the
integral part. -/
theorem nearest_mono {x y : K} (h : x ≤ y) : nearest x ≤ nearest y := by
  have hfloor : ⌊x⌋ ≤ ⌊y⌋ := Int.floor_mono h
  by_cases hsame : ⌊x⌋ = ⌊y⌋
  · have hrest : x - ⌊x⌋ ≤ y - ⌊x⌋ := by linarith
    unfold nearest
    rw [← hsame]
    split
    · split <;> omega
    · next hup =>
      have hup' : ¬(y - ⌊x⌋ < 1 / 2 ∨ y - ⌊x⌋ = 1 / 2 ∧ ⌊x⌋ % 2 = 0) := by
        rintro (hlt | ⟨heq, heven⟩)
        · exact hup (.inl (lt_of_le_of_lt hrest hlt))
        · rcases lt_or_eq_of_le (hrest.trans_eq heq) with hlt | heq'
          · exact hup (.inl hlt)
          · exact hup (.inr ⟨heq', heven⟩)
      rw [if_neg hup']
  · have hlow := nearest_le_floor_add_one x
    have hhigh := floor_le_nearest y
    omega

end

/-! ## Shares -/

section

variable {α : Type} (counts : α → Bool) (weight : α → K)

/-- The mean weight of the items that count, and zero where none does. -/
def share (items : List α) : K :=
  ((items.filter counts).map weight).sum / (items.filter counts).length

variable {counts : α → Bool} {weight : α → K}

theorem share_congr {items items' : List α} (h : items.filter counts = items'.filter counts) :
    share counts weight items = share counts weight items' := by
  simp only [share, h]

theorem share_perm {items items' : List α} (h : items.Perm items') :
    share counts weight items = share counts weight items' := by
  have hfilter := h.filter counts
  have hsum := (hfilter.map weight).sum_eq
  have hlength := hfilter.length_eq
  simp only [share, hsum, hlength]

/-- An item that does not count is not seen. -/
theorem share_skip {item : α} (h : counts item = false) (front back : List α) :
    share counts weight (front ++ item :: back) = share counts weight (front ++ back) := by
  apply share_congr
  simp [h]

variable [LinearOrder K] [IsStrictOrderedRing K]

theorem share_nonneg (h : ∀ a, 0 ≤ weight a) (items : List α) : 0 ≤ share counts weight items := by
  have hsum : 0 ≤ ((items.filter counts).map weight).sum := by
    apply List.sum_nonneg
    intro w hw
    obtain ⟨a, -, rfl⟩ := List.mem_map.mp hw
    exact h a
  exact div_nonneg hsum (Nat.cast_nonneg _)

theorem sum_map_le_length (h : ∀ a, weight a ≤ 1) (items : List α) :
    (items.map weight).sum ≤ items.length := by
  induction items with
  | nil => simp
  | cons a items ih =>
    have ha := h a
    simp only [List.map_cons, List.sum_cons, List.length_cons, Nat.cast_succ]
    linarith

theorem share_le_one (h : ∀ a, weight a ≤ 1) (items : List α) : share counts weight items ≤ 1 :=
  div_le_one_of_le₀ (sum_map_le_length h _) (Nat.cast_nonneg _)

theorem share_eq_one {items : List α} (hsome : ∃ a ∈ items, counts a = true)
    (h : ∀ a ∈ items, counts a = true → weight a = 1) : share counts weight items = 1 := by
  have hones : (items.filter counts).map weight = List.replicate (items.filter counts).length 1 := by
    apply List.eq_replicate_iff.mpr
    constructor
    · simp
    · intro w hw
      obtain ⟨a, ha, rfl⟩ := List.mem_map.mp hw
      exact h a (List.mem_of_mem_filter ha) (List.of_mem_filter ha)
  obtain ⟨a, ha, hcounts⟩ := hsome
  have hmem : a ∈ items.filter counts := List.mem_filter.mpr ⟨ha, hcounts⟩
  have hne : ((items.filter counts).length : K) ≠ 0 := by
    have := List.length_pos_of_mem hmem
    exact_mod_cast this.ne'
  rw [share, hones, List.sum_replicate, nsmul_one, div_self hne]

/-- One item is replaced by one that counts alike and weighs no less. -/
theorem share_raise {old new : α} (hcounts : counts new = counts old)
    (hweight : weight old ≤ weight new) (front back : List α) :
    share counts weight (front ++ old :: back) ≤ share counts weight (front ++ new :: back) := by
  have hlength : ((front ++ new :: back).filter counts).length =
      ((front ++ old :: back).filter counts).length := by
    simp only [List.filter_append, List.filter_cons, hcounts, List.length_append]
    split <;> rfl
  have hsum : (((front ++ old :: back).filter counts).map weight).sum ≤
      (((front ++ new :: back).filter counts).map weight).sum := by
    simp only [List.filter_append, List.filter_cons, hcounts, List.map_append, List.sum_append]
    split
    · simp only [List.map_cons, List.sum_cons]
      linarith
    · rfl
  rw [share, share, hlength]
  exact div_le_div_of_nonneg_right hsum (Nat.cast_nonneg _)

end

end NexusEngine.WeightedShares
