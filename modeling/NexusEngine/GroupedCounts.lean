import Mathlib.Data.List.Dedup
import Mathlib.Data.List.Perm.Basic

/-!
# Rows by group

`SELECT key, count(*) GROUP BY key` answers with one row for each key that occurs. Read back as a
dictionary with zero for the other keys it is the function that counts. Rows that are collected
under their keys are read back as a dictionary of lists.
-/

namespace NexusEngine.GroupedCounts

variable {Key : Type} [DecidableEq Key]

/-- One row for each key, with the number of its occurrences. -/
def groupCounts (keys : List Key) : List (Key × ℕ) := keys.dedup.map fun k => (k, keys.count k)

/-- The keys in the order in which they occur first occur once. -/
theorem nodup_eraseDups (keys : List Key) : keys.eraseDups.Nodup := by
  induction hlength : keys.length using Nat.strongRecOn generalizing keys with
  | _ n ih =>
    cases keys with
    | nil => exact List.nodup_nil
    | cons k keys =>
      rw [List.eraseDups_cons, List.nodup_cons]
      constructor
      · simp
      · have hle := List.length_filter_le (fun b => !b == k) keys
        rw [List.length_cons] at hlength
        exact ih _ (by omega) _ rfl

/-- The values that a `defaultdict(list)` has collected under a key. -/
def groupOf {α : Type} (rows : List (Key × α)) (k : Key) : List α :=
  (rows.filter fun row => row.1 = k).map Prod.snd

theorem mem_groupOf {α : Type} {rows : List (Key × α)} {k : Key} {a : α} :
    a ∈ groupOf rows k ↔ (k, a) ∈ rows := by
  simp [groupOf]

/-- `dict(rows).get(key, 0)`. -/
def countOf (rows : List (Key × ℕ)) (k : Key) : ℕ := (rows.lookup k).getD 0

theorem lookup_counted (f : Key → ℕ) (keys : List Key) (k : Key) :
    (keys.map fun k' => (k', f k')).lookup k = if k ∈ keys then some (f k) else none := by
  induction keys with
  | nil => simp
  | cons k' keys ih =>
    rw [List.map_cons, List.lookup_cons, ih]
    by_cases h : k = k'
    · simp [h]
    · simp [h, beq_eq_false_iff_ne.mpr h]

theorem countOf_groupCounts (keys : List Key) (k : Key) :
    countOf (groupCounts keys) k = keys.count k := by
  rw [countOf, groupCounts, lookup_counted]
  by_cases h : k ∈ keys
  · simp [h]
  · simp [h, List.count_eq_zero_of_not_mem h]

/-- The groups of the rows that have a key, counted by their keys. -/
theorem countOf_groupCounts_filterMap {Row : Type} (key : Row → Option Key) (rows : List Row)
    (k : Key) :
    countOf (groupCounts (rows.filterMap key)) k = rows.countP fun r => key r = some k := by
  rw [countOf_groupCounts]
  induction rows with
  | nil => rfl
  | cons r rows ih =>
    cases hr : key r with
    | none => simp [hr, ih]
    | some k' =>
      by_cases h : k' = k
      · simp [hr, ih, h]
      · simp [hr, ih, h]

/-! ## Links

A table of links between two sides stores no pair twice. -/

section

variable {Link Other : Type} [DecidableEq Other] {left : Link → Key} {right : Link → Other}
  {links : List Link}

omit [DecidableEq Key] in
/-- What is linked to one value on the right is linked to it once. -/
theorem nodup_linked (h : (links.map fun l => (left l, right l)).Nodup) (b : Other) :
    ((links.filter fun l => right l = b).map left).Nodup := by
  have hlinks : (links.filter fun l => right l = b).Nodup := h.of_map.filter _
  apply List.Nodup.map_on _ hlinks
  intro l hl m hm hleft
  simp only [List.mem_filter, decide_eq_true_eq] at hl hm
  apply List.inj_on_of_nodup_map h hl.1 hm.1
  simp only [hleft, hl.2, hm.2]

/-- Of rows with distinct keys as many have one of some distinct keys as there are such keys. -/
theorem countP_key_mem {Row : Type} {key : Row → Key} {rows : List Row}
    (hrows : (rows.map key).Nodup) {keys : List Key} (hkeys : keys.Nodup)
    (hsub : ∀ k ∈ keys, k ∈ rows.map key) : (rows.countP fun r => key r ∈ keys) = keys.length := by
  have hperm : ((rows.map key).filter (· ∈ keys)).Perm keys := by
    apply (List.perm_ext_iff_of_nodup (hrows.filter _) hkeys).mpr
    intro k
    simp only [List.mem_filter, decide_eq_true_eq]
    exact ⟨fun hk => hk.2, fun hk => ⟨hsub k hk, hk⟩⟩
  rw [← hperm.length_eq, List.filter_map, List.length_map, List.countP_eq_length_filter]
  rfl

/-- The links of one value on the right are as many as the rows on the left that have one. -/
theorem count_right {Row : Type} {key : Row → Key} {rows : List Row}
    (hrows : (rows.map key).Nodup) (h : (links.map fun l => (left l, right l)).Nodup)
    (hsub : ∀ l ∈ links, left l ∈ rows.map key) (b : Other) :
    (links.map right).count b =
      rows.countP fun r => links.any fun l => left l = key r && right l = b := by
  have hcount : (links.map right).count b =
      ((links.filter fun l => right l = b).map left).length := by
    rw [List.count, List.countP_map, List.countP_eq_length_filter, List.length_map]
    congr 1
  rw [hcount, ← countP_key_mem hrows (nodup_linked h b)]
  · apply List.countP_congr
    intro r _
    simp only [List.mem_map, List.mem_filter, decide_eq_true_eq, List.any_eq_true,
      Bool.and_eq_true]
    constructor
    · rintro ⟨l, ⟨hl, hright⟩, hleft⟩
      exact ⟨l, hl, hleft, hright⟩
    · rintro ⟨l, hl, hleft, hright⟩
      exact ⟨l, ⟨hl, hright⟩, hleft⟩
  · intro k hk
    obtain ⟨l, hl, rfl⟩ := List.mem_map.mp hk
    exact hsub l (List.mem_of_mem_filter hl)

end

end NexusEngine.GroupedCounts
