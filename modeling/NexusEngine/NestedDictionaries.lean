import NexusEngine.PythonText
import Mathlib.Data.List.Sort

/-!
# Dictionaries of dictionaries

Values that are set under two keys, one inside the other, are regrouped by the first key. As long
as no pair of keys is set twice, the items of the inner dictionaries are the values that were set,
each once.
-/

namespace NexusEngine.NestedDictionaries

open PythonText

variable {κ κ' ν α : Type}

/-- The values with both of their keys. -/
def items (d : List (κ × List (κ' × ν))) : List (κ × κ' × ν) :=
  d.flatMap fun g => g.2.map fun e => (g.1, e.1, e.2)

/-- The pair of keys of an item. -/
def pairOf (i : κ × κ' × ν) : κ × κ' := (i.1, i.2.1)

@[simp] theorem items_nil : items ([] : List (κ × List (κ' × ν))) = [] := rfl

@[simp] theorem items_cons (g : κ × List (κ' × ν)) (d : List (κ × List (κ' × ν))) :
    items (g :: d) = (g.2.map fun e => (g.1, e.1, e.2)) ++ items d := List.flatMap_cons

theorem items_perm {d d' : List (κ × List (κ' × ν))} (h : d.Perm d') :
    (items d).Perm (items d') := h.flatMap_right _

/-- Where the pairs of keys are distinct, so are the keys of each inner dictionary. -/
theorem nodup_inner {d : List (κ × List (κ' × ν))} (h : ((items d).map pairOf).Nodup) :
    ∀ g ∈ d, (g.2.map Prod.fst).Nodup := by
  intro g hg
  rw [items, List.map_flatMap, List.nodup_flatMap] at h
  have hgroup := h.1 g hg
  rw [List.map_map] at hgroup
  exact .of_map (fun k' => (g.1, k')) (by simpa [Function.comp_def, pairOf] using hgroup)

/-! ## One value -/

variable [DecidableEq κ] [DecidableEq κ']

/-- `d[k][k'] = v`, where a missing inner dictionary is an empty one. -/
def setIn (d : List (κ × List (κ' × ν))) (k : κ) (k' : κ') (v : ν) : List (κ × List (κ' × ν)) :=
  dictSet d k (dictSet (dictGet d k []) k' v)

section

variable {d : List (κ × List (κ' × ν))} {k : κ} {k' : κ'} {v : ν}

theorem keys_setIn : (setIn d k k' v).map Prod.fst =
    if k ∈ d.map Prod.fst then d.map Prod.fst else d.map Prod.fst ++ [k] := keys_dictSet d k _

theorem nodup_setIn (h : (d.map Prod.fst).Nodup) : ((setIn d k k' v).map Prod.fst).Nodup :=
  nodup_dictSet h k _

/-- A new pair of keys adds one item. -/
theorem items_setIn (hkeys : (d.map Prod.fst).Nodup) (hnew : (k, k') ∉ (items d).map pairOf) :
    (items (setIn d k k' v)).Perm ((k, k', v) :: items d) := by
  induction d with
  | nil => simp [setIn, dictSet, dictGet]
  | cons g d ih =>
    obtain ⟨hnot, hrest⟩ := List.nodup_cons.mp hkeys
    rw [items_cons, List.map_append, List.mem_append, not_or] at hnew
    by_cases hk : g.1 = k
    · subst hk
      have hfresh : k' ∉ g.2.map Prod.fst := by
        intro hmem
        obtain ⟨e, he, rfl⟩ := List.mem_map.mp hmem
        apply hnew.1
        simpa [pairOf] using ⟨e.2, he⟩
      rw [setIn, dictGet_cons_self, dictSet_cons_self hnot, dictSet_new hfresh, items_cons,
        items_cons]
      simp only [List.map_append, List.map_cons, List.map_nil, List.append_assoc,
        List.singleton_append]
      exact List.perm_middle
    · have hinner := ih hrest hnew.2
      rw [setIn] at hinner ⊢
      rw [dictGet_cons_ne hk, dictSet_cons_ne hk, items_cons, items_cons]
      exact (hinner.append_left _).trans List.perm_middle

/-- No inner dictionary stays empty. -/
theorem setIn_ne_nil (h : ∀ g ∈ d, g.2 ≠ []) : ∀ g ∈ setIn d k k' v, g.2 ≠ [] := by
  intro g hg
  rcases mem_dictSet hg with hg | rfl
  · exact h g hg
  · intro hempty
    have hkeys := keys_dictSet (dictGet d k []) k' v
    dsimp only at hempty
    rw [hempty] at hkeys
    split at hkeys
    · next hmem => simp [← hkeys] at hmem
    · simp at hkeys

end

/-! ## Many values -/

section

variable (key : α → κ) (key' : α → κ') (value : α → ν)

/-- Every value is set under its two keys, in turn. -/
def regroup (d : List (κ × List (κ' × ν))) (as : List α) : List (κ × List (κ' × ν)) :=
  as.foldl (fun d a => setIn d (key a) (key' a) (value a)) d

variable {key key' value} {d : List (κ × List (κ' × ν))} {as : List α}

theorem nodup_regroup (h : (d.map Prod.fst).Nodup) :
    ((regroup key key' value d as).map Prod.fst).Nodup := by
  induction as generalizing d with
  | nil => exact h
  | cons a as ih => exact ih (nodup_setIn h)

theorem regroup_ne_nil (h : ∀ g ∈ d, g.2 ≠ []) : ∀ g ∈ regroup key key' value d as, g.2 ≠ [] := by
  induction as generalizing d with
  | nil => exact h
  | cons a as ih => exact ih (setIn_ne_nil h)

/-- Values under distinct pairs of keys are regrouped without a loss. -/
theorem items_regroup (hkeys : (d.map Prod.fst).Nodup)
    (hpairs : (as.map (fun a => (key a, key' a)) ++ (items d).map pairOf).Nodup) :
    (items (regroup key key' value d as)).Perm
      (as.map (fun a => (key a, key' a, value a)) ++ items d) := by
  induction as generalizing d with
  | nil => exact .refl _
  | cons a as ih =>
    rw [List.map_cons, List.cons_append, List.nodup_cons, List.mem_append, not_or] at hpairs
    obtain ⟨⟨hlater, hnew⟩, hrest⟩ := hpairs
    have hset : (items (setIn d (key a) (key' a) (value a))).Perm
        ((key a, key' a, value a) :: items d) := items_setIn hkeys hnew
    have hpairs' : (as.map (fun a => (key a, key' a)) ++
        (items (setIn d (key a) (key' a) (value a))).map pairOf).Nodup := by
      have hperm := (hset.map pairOf).append_left (as.map fun a => (key a, key' a))
      rw [hperm.nodup_iff, List.map_cons]
      apply (List.nodup_middle).mpr
      rw [List.nodup_cons, List.mem_append, not_or]
      exact ⟨⟨hlater, hnew⟩, hrest⟩
    have hinner := ih (nodup_setIn hkeys) hpairs'
    rw [List.map_cons, List.cons_append]
    exact hinner.trans ((hset.append_left _).trans List.perm_middle)

end

/-! ## In the order of the keys -/

section

variable {ι β : Type} [LinearOrder ι]

/-- `sorted(d.items())`. The keys are distinct, so that no values are compared. -/
def sortedItems (d : List (ι × β)) : List (ι × β) := d.insertionSort fun a b => a.1 ≤ b.1

theorem sortedItems_perm (d : List (ι × β)) : (sortedItems d).Perm d := List.perm_insertionSort _ d

theorem sortedItems_sorted {d : List (ι × β)} (h : (d.map Prod.fst).Nodup) :
    (sortedItems d).Pairwise fun a b => a.1 < b.1 := by
  have htotal : Std.Total fun a b : ι × β => a.1 ≤ b.1 := ⟨fun a b => le_total a.1 b.1⟩
  have htrans : IsTrans (ι × β) fun a b => a.1 ≤ b.1 := ⟨fun _ _ _ => le_trans⟩
  have hle : (sortedItems d).Pairwise fun a b => a.1 ≤ b.1 := List.pairwise_insertionSort _ d
  have hne : ((sortedItems d).map Prod.fst).Nodup :=
    ((sortedItems_perm d).map Prod.fst).nodup_iff.mpr h
  rw [List.Nodup, List.pairwise_map] at hne
  exact hle.imp₂ (fun _ _ hle hne => lt_of_le_of_ne hle hne) hne

end

end NexusEngine.NestedDictionaries
