import NexusEngine.GroupedCounts
import NexusEngine.PythonText
import Mathlib.Algebra.BigOperators.Group.List.Basic

/-!
# Rows collected by key

Rows are appended one by one to the list under their key, where a missing list is an empty one. The
dictionary has the keys in the order in which they occur first, and under each key its rows, in
their order. Whatever keys are asked for, the rows that have one of them are found once.
-/

namespace NexusEngine.CollectedGroups

open PythonText GroupedCounts

variable {κ α : Type} [DecidableEq κ]

/-! ## Rows by distinct keys -/

section

variable {key : α → κ} {keys : List κ} {rows : List α}

theorem flatMap_filter_perm (hkeys : keys.Nodup) :
    (keys.flatMap fun k => rows.filter fun a => key a = k).Perm
      (rows.filter fun a => key a ∈ keys) := by
  induction keys with
  | nil => simp
  | cons k keys ih =>
    obtain ⟨hnew, hrest⟩ := List.nodup_cons.mp hkeys
    -- the rows of the first key are none of those of the others
    have hfirst : (rows.filter fun a => key a ∈ k :: keys).filter (fun a => key a = k) =
        rows.filter fun a => key a = k := by
      rw [List.filter_filter]
      apply List.filter_congr
      intro a _
      by_cases h : key a = k
      · simp [h]
      · simp [h]
    have hothers : (rows.filter fun a => key a ∈ k :: keys).filter (fun a => !key a = k) =
        rows.filter fun a => key a ∈ keys := by
      rw [List.filter_filter]
      apply List.filter_congr
      intro a _
      by_cases h : key a = k
      · simp [h, hnew]
      · simp [h]
    have hsplit := List.filter_append_perm (fun a => key a = k)
      (rows.filter fun a => key a ∈ k :: keys)
    rw [hfirst, hothers] at hsplit
    rw [List.flatMap_cons]
    exact ((ih hrest).append_left _).trans hsplit

/-- Where every row has one of the keys, the groups are the rows. -/
theorem groups_perm (hkeys : keys.Nodup) (hrows : ∀ a ∈ rows, key a ∈ keys) :
    (keys.flatMap fun k => rows.filter fun a => key a = k).Perm rows := by
  have hall : (rows.filter fun a => key a ∈ keys) = rows :=
    List.filter_eq_self.mpr fun a ha => decide_eq_true (hrows a ha)
  exact (flatMap_filter_perm hkeys).trans (List.Perm.of_eq hall)

/-- The rows are counted by their keys. -/
theorem sum_countP_key (hkeys : keys.Nodup) (hrows : ∀ a ∈ rows, key a ∈ keys) :
    (keys.map fun k => rows.countP fun a => key a = k).sum = rows.length := by
  have hlength := (groups_perm hkeys hrows).length_eq
  rw [List.length_flatMap] at hlength
  simpa [List.countP_eq_length_filter] using hlength

end

/-! ## Collecting -/

variable (key : α → κ)

/-- `d[key(row)].append(row)`. -/
def append (d : List (κ × List α)) (a : α) : List (κ × List α) :=
  dictSet d (key a) (dictGet d (key a) [] ++ [a])

def collect (rows : List α) : List (κ × List α) := rows.foldl (append key) []

/-- The groups of the rows, under the keys in the order in which they occur first. -/
def groups (rows : List α) : List (κ × List α) :=
  (rows.map key).eraseDups.map fun k => (k, rows.filter fun a => key a = k)

variable {key} {rows : List α}

theorem keys_groups : (groups key rows).map Prod.fst = (rows.map key).eraseDups := by
  simp [groups, Function.comp_def]

theorem dictGet_groups (k : κ) :
    dictGet (groups key rows) k [] = rows.filter fun a => key a = k := by
  have hfind : ∀ keys : List κ, (keys.map fun k' => (k', rows.filter fun a => key a = k')).find?
      (fun e => e.1 = k) = if k ∈ keys then some (k, rows.filter fun a => key a = k) else none := by
    intro keys
    induction keys with
    | nil => rfl
    | cons k' keys ih =>
      rw [List.map_cons, List.find?_cons, ih]
      by_cases h : k' = k
      · simp [h]
      · simp [h, Ne.symm h]
  rw [dictGet, groups, hfind]
  by_cases h : k ∈ (rows.map key).eraseDups
  · simp [h]
  · rw [if_neg h]
    rw [List.mem_eraseDups, List.mem_map] at h
    symm
    apply List.filter_eq_nil_iff.mpr
    intro a ha hk
    exact h ⟨a, ha, of_decide_eq_true hk⟩

/-- The keys of one more row. -/
theorem eraseDups_concat (keys : List κ) (k : κ) :
    (keys ++ [k]).eraseDups = if k ∈ keys then keys.eraseDups else keys.eraseDups ++ [k] := by
  rw [List.eraseDups_append, List.removeAll]
  by_cases h : k ∈ keys
  · rw [if_pos h, List.filter_cons_of_neg (by simpa using h)]
    simp
  · rw [if_neg h, List.filter_cons_of_pos (by simpa using h)]
    simp [List.eraseDups_cons]

/-- One more row. -/
theorem append_groups (a : α) : append key (groups key rows) a = groups key (rows ++ [a]) := by
  have hgroup : ∀ k, ((rows ++ [a]).filter fun b => key b = k) =
      if key a = k then (rows.filter fun b => key b = k) ++ [a]
      else rows.filter fun b => key b = k := by
    intro k
    by_cases h : key a = k
    · simp [h]
    · simp [h]
  rw [append, dictGet_groups, dictSet, keys_groups]
  by_cases h : key a ∈ (rows.map key).eraseDups
  · have hkeys : ((rows ++ [a]).map key).eraseDups = (rows.map key).eraseDups := by
      rw [List.map_append, List.map_singleton, eraseDups_concat, if_pos (List.mem_eraseDups.mp h)]
    rw [if_pos h, groups, groups, hkeys, List.map_map]
    apply List.map_congr_left
    intro k _
    simp only [Function.comp_apply, hgroup]
    by_cases hk : k = key a
    · simp [hk]
    · simp [hk, Ne.symm hk]
  · have hkeys : ((rows ++ [a]).map key).eraseDups = (rows.map key).eraseDups ++ [key a] := by
      rw [List.map_append, List.map_singleton, eraseDups_concat,
        if_neg (mt List.mem_eraseDups.mpr h)]
    rw [if_neg h, groups, groups, hkeys, List.map_append]
    congr 1
    · apply List.map_congr_left
      intro k hk
      have hne : key a ≠ k := fun heq => h (heq ▸ hk)
      rw [hgroup, if_neg hne]
    · simp [hgroup]

theorem collect_eq (rows : List α) : collect key rows = groups key rows := by
  induction rows using List.reverseRecOn with
  | nil => rfl
  | append_singleton rows a ih =>
    rw [← append_groups, ← ih]
    simp [collect]

theorem nodup_collect : ((collect key rows).map Prod.fst).Nodup := by
  rw [collect_eq, keys_groups]
  exact nodup_eraseDups _

/-- A group has the rows with its key, in their order. -/
theorem mem_collect {g : κ × List α} (h : g ∈ collect key rows) :
    g.2 = rows.filter (fun a => key a = g.1) ∧ ∃ a ∈ rows, key a = g.1 := by
  rw [collect_eq] at h
  obtain ⟨k, hk, rfl⟩ := List.mem_map.mp h
  rw [List.mem_eraseDups] at hk
  exact ⟨rfl, List.mem_map.mp hk⟩

/-- No row is lost. -/
theorem collect_perm : ((collect key rows).flatMap Prod.snd).Perm rows := by
  rw [collect_eq, groups, List.flatMap_map]
  apply groups_perm (nodup_eraseDups _)
  intro a ha
  rw [List.mem_eraseDups]
  exact List.mem_map_of_mem ha

end NexusEngine.CollectedGroups
