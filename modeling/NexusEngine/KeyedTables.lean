import Mathlib.Algebra.GroupWithZero.Nat
import Mathlib.Data.List.Basic
import Mathlib.Data.List.Nodup
import Mathlib.Data.List.Sort

/-!
# Tables with a primary key

A table is its list of rows in insertion order together with the proof that no key occurs
twice, so that a key names at most one row. An insert is refused when the key is taken, an
update when there is no row to update.
-/

namespace NexusEngine.KeyedTables

variable {Row Key : Type}

structure Table (Row Key : Type) (key : Row → Key) where
  rows : List Row
  nodup : (rows.map key).Nodup

namespace Table

variable {key : Row → Key}

@[ext] theorem ext {t t' : Table Row Key key} (h : t.rows = t'.rows) : t = t' := by
  cases t
  cases t'
  cases h
  rfl

instance [DecidableEq Row] : DecidableEq (Table Row Key key) := fun t t' =>
  decidable_of_iff (t.rows = t'.rows) ⟨ext, fun h => h ▸ rfl⟩

def empty : Table Row Key key := ⟨[], List.nodup_nil⟩

@[simp] theorem rows_empty : (empty : Table Row Key key).rows = [] := rfl

def singleton (r : Row) : Table Row Key key := ⟨[r], List.nodup_singleton _⟩

@[simp] theorem rows_singleton (r : Row) : (singleton r : Table Row Key key).rows = [r] := rfl

theorem eq_of_key_eq (t : Table Row Key key) {r r' : Row} (hr : r ∈ t.rows) (hr' : r' ∈ t.rows)
    (h : key r = key r') : r = r' := List.inj_on_of_nodup_map t.nodup hr hr' h

/-- One row has the key of a row. -/
theorem countP_key [DecidableEq Key] (t : Table Row Key key) {r : Row} (hr : r ∈ t.rows) :
    (t.rows.countP fun r' => key r' = key r) = 1 := by
  have hcount : (t.rows.map key).count (key r) = 1 :=
    List.count_eq_one_of_mem t.nodup (List.mem_map_of_mem hr)
  rw [List.count, List.countP_map] at hcount
  exact hcount

/-- Of rows with distinct keys one has the key of a row. -/
theorem filter_key [DecidableEq Key] {rows : List Row} (hnodup : (rows.map key).Nodup) {r : Row}
    (hr : r ∈ rows) : (rows.filter fun r' => decide (key r' = key r)) = [r] := by
  obtain ⟨front, back, rfl⟩ := List.append_of_mem hr
  rw [List.map_append, List.map_cons, List.nodup_append, List.nodup_cons] at hnodup
  obtain ⟨-, ⟨hback, -⟩, hfront⟩ := hnodup
  have hfront' : (front.filter fun r' => decide (key r' = key r)) = [] :=
    List.filter_eq_nil_iff.mpr fun r' hr' => by
      simpa using hfront _ (List.mem_map_of_mem hr') _ List.mem_cons_self
  have hback' : (back.filter fun r' => decide (key r' = key r)) = [] :=
    List.filter_eq_nil_iff.mpr fun r' hr' heq =>
      hback (of_decide_eq_true heq ▸ List.mem_map_of_mem hr')
  simp [hfront', hback']

/-- A sum over the rows where one row is replaced. -/
theorem sum_map_replace [DecidableEq Key] {rows : List Row} (hnodup : (rows.map key).Nodup)
    {old : Row} (hold : old ∈ rows) (new : Row) (weight : Row → ℕ) :
    ((rows.map fun r => if key r = key old then new else r).map weight).sum + weight old =
      (rows.map weight).sum + weight new := by
  obtain ⟨front, back, rfl⟩ := List.append_of_mem hold
  rw [List.map_append, List.map_cons, List.nodup_append, List.nodup_cons] at hnodup
  obtain ⟨-, ⟨hback, -⟩, hfront⟩ := hnodup
  have keep : ∀ rs : List Row, (∀ r ∈ rs, key r ≠ key old) →
      (rs.map fun r => if key r = key old then new else r) = rs := fun rs hrs =>
    (List.map_congr_left fun r hr => if_neg (hrs r hr)).trans (List.map_id' rs)
  have hkeptFront := keep front fun r hr =>
    hfront (key r) (List.mem_map_of_mem hr) (key old) List.mem_cons_self
  have hkeptBack := keep back fun r hr heq => hback (heq ▸ List.mem_map_of_mem hr)
  rw [List.map_append, List.map_cons, hkeptFront, hkeptBack, if_pos rfl]
  simp only [List.map_append, List.map_cons, List.sum_append, List.sum_cons]
  omega

/-- Change every row by a function that keeps the key. -/
def mapRows (t : Table Row Key key) (f : Row → Row) (hf : ∀ r, key (f r) = key r) :
    Table Row Key key :=
  ⟨t.rows.map f, by
    rw [List.map_map, funext (f := key ∘ f) hf]
    exact t.nodup⟩

/-- Keep the rows that pass a test. -/
def filter (t : Table Row Key key) (p : Row → Bool) : Table Row Key key :=
  ⟨t.rows.filter p, t.nodup.sublist (List.filter_sublist.map key)⟩

@[simp] theorem rows_filter (t : Table Row Key key) (p : Row → Bool) :
    (t.filter p).rows = t.rows.filter p := rfl

/-- The rows in the order in which a query without `ORDER BY` returns them. Any order is
possible, and `before` says which one it is. -/
def scan (t : Table Row Key key) (before : Key → Key → Bool) : List Row :=
  t.rows.insertionSort fun r r' => before (key r) (key r')

theorem scan_perm (t : Table Row Key key) (before : Key → Key → Bool) :
    (t.scan before).Perm t.rows := List.perm_insertionSort _ _

theorem mem_scan {t : Table Row Key key} {before : Key → Key → Bool} {r : Row} :
    r ∈ t.scan before ↔ r ∈ t.rows := (t.scan_perm before).mem_iff

variable [DecidableEq Key]

/-- Every order of the rows is one in which a query may return them. -/
theorem exists_scan (t : Table Row Key key) {returned : List Row} (h : returned.Perm t.rows) :
    ∃ before, t.scan before = returned := by
  have hnodup : (returned.map key).Nodup := (h.map key).nodup_iff.mpr t.nodup
  let place : Row → ℕ := fun r => (returned.map key).idxOf (key r)
  refine ⟨fun k k' => decide ((returned.map key).idxOf k ≤ (returned.map key).idxOf k'), ?_⟩
  have htotal : Std.Total fun a b : Row => (decide (place a ≤ place b) : Prop) :=
    ⟨fun a b => by simpa using le_total (place a) (place b)⟩
  have htrans : IsTrans Row fun a b => (decide (place a ≤ place b) : Prop) :=
    ⟨fun a b c hab hbc => by
      rw [decide_eq_true_eq] at hab hbc ⊢
      exact hab.trans hbc⟩
  have hsorted : returned.Pairwise fun a b => (decide (place a ≤ place b) : Prop) := by
    apply List.pairwise_iff_getElem.mpr
    intro i j hi hj hij
    have hplace : ∀ k (hk : k < returned.length), place returned[k] = k := by
      intro k hk
      have hk' : k < (returned.map key).length := by simpa using hk
      have hget := hnodup.idxOf_getElem k hk'
      rw [List.getElem_map] at hget
      exact hget
    rw [hplace i hi, hplace j hj, decide_eq_true_eq]
    exact hij.le
  have hperm : (t.rows.insertionSort fun a b => (decide (place a ≤ place b) : Prop)).Perm
      returned :=
    (List.perm_insertionSort _ _).trans h.symm
  apply hperm.eq_of_pairwise _ (List.pairwise_insertionSort _ _) hsorted
  intro a b ha hb hab hba
  rw [decide_eq_true_eq] at hab hba
  have ha' : a ∈ t.rows := (List.mem_insertionSort _).mp ha
  have hb' : b ∈ t.rows := h.mem_iff.mp hb
  apply t.eq_of_key_eq ha' hb'
  have hkey : key b ∈ returned.map key := List.mem_map_of_mem hb
  exact ((List.idxOf_inj hkey).mp (le_antisymm hba hab)).symm

def find? (t : Table Row Key key) (k : Key) : Option Row := t.rows.find? fun r => key r = k

def insert (t : Table Row Key key) (r : Row) : Option (Table Row Key key) :=
  if h : key r ∈ t.rows.map key then none
  else some ⟨t.rows ++ [r], by
    rw [List.map_append, List.nodup_append]
    exact ⟨t.nodup, List.nodup_singleton _, by
      intro a ha b hb hab
      rw [List.mem_singleton.mp hb] at hab
      exact h (hab ▸ ha)⟩⟩

/-- Replace the row with key `k` by its image under a function that keeps the key. -/
def update (t : Table Row Key key) (k : Key) (f : Row → Row) (hf : ∀ r, key (f r) = key r) :
    Option (Table Row Key key) :=
  if k ∈ t.rows.map key then
    some ⟨t.rows.map fun r => if key r = k then f r else r, by
      have hkeys : (t.rows.map fun r => if key r = k then f r else r).map key =
          t.rows.map key := by
        rw [List.map_map]
        refine List.map_congr_left fun r _ => ?_
        simp only [Function.comp]
        split
        · exact hf r
        · rfl
      rw [hkeys]
      exact t.nodup⟩
  else none

def delete (t : Table Row Key key) (k : Key) : Table Row Key key := t.filter fun r => key r ≠ k

theorem find?_rows (t : Table Row Key key) (k : Key) :
    t.find? k = t.rows.find? fun r => key r = k := rfl

@[simp] theorem find?_empty (k : Key) : (empty : Table Row Key key).find? k = none := rfl

theorem find?_eq_some {t : Table Row Key key} {k : Key} {r : Row} :
    t.find? k = some r ↔ r ∈ t.rows ∧ key r = k := by
  constructor
  · intro h
    exact ⟨List.mem_of_find?_eq_some h, by simpa using List.find?_some h⟩
  · rintro ⟨hr, rfl⟩
    cases h : t.find? (key r) with
    | none =>
      have hnone := List.find?_eq_none.mp h r hr
      simp at hnone
    | some r' =>
      have hkey : key r' = key r := by simpa using List.find?_some h
      rw [t.eq_of_key_eq (List.mem_of_find?_eq_some h) hr hkey]

theorem find?_of_mem {t : Table Row Key key} {r : Row} (h : r ∈ t.rows) :
    t.find? (key r) = some r := find?_eq_some.mpr ⟨h, rfl⟩

theorem find?_eq_none {t : Table Row Key key} {k : Key} :
    t.find? k = none ↔ ∀ r ∈ t.rows, key r ≠ k := by
  simp [find?_rows, List.find?_eq_none]

theorem isSome_find? {t : Table Row Key key} {k : Key} :
    (t.find? k).isSome = true ↔ k ∈ t.rows.map key := by
  simp [Option.isSome_iff_exists, find?_eq_some]

theorem insert_eq_some {t t' : Table Row Key key} {r : Row} :
    t.insert r = some t' ↔ t.find? (key r) = none ∧ t'.rows = t.rows ++ [r] := by
  unfold insert
  split
  · next h =>
    obtain ⟨r', hr', hkey⟩ := List.mem_map.mp h
    constructor
    · exact fun h => nomatch h
    · rintro ⟨hnone, -⟩
      exact absurd hkey (find?_eq_none.mp hnone r' hr')
  · next h =>
    rw [Option.some.injEq]
    constructor
    · rintro rfl
      exact ⟨find?_eq_none.mpr fun r' hr' hk => h (List.mem_map.mpr ⟨r', hr', hk⟩), rfl⟩
    · rintro ⟨-, hrows⟩
      exact ext hrows.symm

theorem update_eq_some {t t' : Table Row Key key} {k : Key} {f : Row → Row}
    {hf : ∀ r, key (f r) = key r} :
    t.update k f hf = some t' ↔
      (∃ r, t.find? k = some r) ∧ t'.rows = t.rows.map fun r => if key r = k then f r else r := by
  unfold update
  split
  · next h =>
    obtain ⟨r, hr, hkey⟩ := List.mem_map.mp h
    rw [Option.some.injEq]
    constructor
    · rintro rfl
      exact ⟨⟨r, find?_eq_some.mpr ⟨hr, hkey⟩⟩, rfl⟩
    · rintro ⟨-, hrows⟩
      exact ext hrows.symm
  · next h =>
    constructor
    · exact fun h => nomatch h
    · rintro ⟨⟨r, hr⟩, -⟩
      obtain ⟨hmem, hkey⟩ := find?_eq_some.mp hr
      exact absurd (List.mem_map.mpr ⟨r, hmem, hkey⟩) h

/-- An update finds its row where there is one. -/
theorem update_isSome {t : Table Row Key key} {k : Key} {f : Row → Row}
    {hf : ∀ r, key (f r) = key r} {r : Row} (h : t.find? k = some r) :
    ∃ t', t.update k f hf = some t' := by
  rw [find?_eq_some] at h
  obtain ⟨hmem, hkey⟩ := h
  have hk : k ∈ t.rows.map key := List.mem_map.mpr ⟨r, hmem, hkey⟩
  exact ⟨_, dif_pos hk⟩

/-- An insert goes through where the key is free. -/
theorem insert_isSome {t : Table Row Key key} {r : Row} (h : t.find? (key r) = none) :
    ∃ t', t.insert r = some t' := by
  rw [find?_eq_none] at h
  have hfree : key r ∉ t.rows.map key := by
    intro hmem
    obtain ⟨r', hr', hkey⟩ := List.mem_map.mp hmem
    exact h r' hr' hkey
  exact ⟨_, dif_neg hfree⟩

/-- An update replaces the row that it finds and no other. -/
theorem map_find? {t : Table Row Key key} {k : Key} {f : Row → Row} {r : Row}
    (h : t.find? k = some r) (k' : Key) :
    ((t.find? k').map fun r => if key r = k then f r else r) =
      if k' = k then some (f r) else t.find? k' := by
  by_cases hk : k' = k
  · rw [if_pos hk, hk, h, Option.map_some, if_pos (find?_eq_some.mp h).2]
  · rw [if_neg hk]
    cases hother : t.find? k' with
    | none => rfl
    | some other =>
      have hne : key other ≠ k := (find?_eq_some.mp hother).2 ▸ hk
      rw [Option.map_some, if_neg hne]

theorem find?_insert {t t' : Table Row Key key} {r : Row} (h : t.insert r = some t') (k : Key) :
    t'.find? k = if key r = k then some r else t.find? k := by
  rw [insert_eq_some] at h
  obtain ⟨hnone, hrows⟩ := h
  rw [find?_rows, hrows, List.find?_append]
  by_cases hk : key r = k
  · subst hk
    rw [find?_rows] at hnone
    simp [hnone]
  · simp [hk, find?_rows]

theorem find?_update {t t' : Table Row Key key} {k : Key} {f : Row → Row}
    {hf : ∀ r, key (f r) = key r} (h : t.update k f hf = some t') (k' : Key) :
    t'.find? k' = (t.find? k').map fun r => if key r = k then f r else r := by
  rw [update_eq_some] at h
  obtain ⟨-, hrows⟩ := h
  have hkey : ∀ r, key (if key r = k then f r else r) = key r := by
    intro r
    split
    · exact hf r
    · rfl
  rw [find?_rows, hrows, List.find?_map, find?_rows]
  simp only [Function.comp_def, hkey]

/-- An update keeps the keys. -/
theorem keys_update {t t' : Table Row Key key} {k : Key} {f : Row → Row}
    {hf : ∀ r, key (f r) = key r} (h : t.update k f hf = some t') :
    t'.rows.map key = t.rows.map key := by
  rw [update_eq_some] at h
  rw [h.2, List.map_map]
  apply List.map_congr_left
  intro r _
  simp only [Function.comp]
  split
  · exact hf r
  · rfl

theorem find?_update_of_find? {t t' : Table Row Key key} {k : Key} {f : Row → Row}
    {hf : ∀ r, key (f r) = key r} {r : Row} (h : t.update k f hf = some t')
    (hr : t.find? k = some r) (k' : Key) :
    t'.find? k' = if k' = k then some (f r) else t.find? k' :=
  (find?_update h k').trans (map_find? hr k')

theorem mem_insert {t t' : Table Row Key key} {r : Row} (h : t.insert r = some t') {r' : Row} :
    r' ∈ t'.rows ↔ r' ∈ t.rows ∨ r' = r := by
  rw [insert_eq_some] at h
  rw [h.2, List.mem_append, List.mem_singleton]

end Table

end NexusEngine.KeyedTables
