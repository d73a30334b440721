import Mathlib.Data.List.Dedup
import Mathlib.Data.List.MinMax
import Mathlib.Data.List.Perm.Basic
import Mathlib.Data.List.Sort
import Mathlib.Order.Lattice

/-!
# Rows by rank

In a list that is sorted by a strict order the place of a row is the number of rows ahead of it,
so that a truncated query keeps the rows with few others ahead. A scan that keeps the first row
of every key finds the latest row of each key when the rows come the newest first.
-/

namespace NexusEngine.RankedRows

variable {Row Key : Type}

/-! ## Ranks -/

section

variable {ahead : Row → Row → Prop} [DecidableRel ahead] {rows : List Row} {r : Row} {n : ℕ}

theorem countP_ahead (hasymm : ∀ a b, ahead a b → ¬ ahead b a) {front back : List Row}
    (h : (front ++ r :: back).Pairwise ahead) :
    (front ++ r :: back).countP (fun r' => decide (ahead r' r)) = front.length := by
  rw [List.pairwise_append, List.pairwise_cons] at h
  obtain ⟨-, ⟨hback, -⟩, hfront⟩ := h
  have hall : front.countP (fun r' => decide (ahead r' r)) = front.length := by
    apply List.countP_eq_length.mpr
    intro r' hr'
    simpa using hfront r' hr' r List.mem_cons_self
  have hnone : (r :: back).countP (fun r' => decide (ahead r' r)) = 0 := by
    apply List.countP_eq_zero.mpr
    intro r' hr' hahead
    rw [decide_eq_true_eq] at hahead
    rcases List.mem_cons.mp hr' with rfl | hr'
    · exact hasymm r' r' hahead hahead
    · exact hasymm r' r hahead (hback r' hr')
  rw [List.countP_append, hall, hnone, Nat.add_zero]

/-- The first rows are those with few rows ahead. -/
theorem mem_take_iff (hasymm : ∀ a b, ahead a b → ¬ ahead b a) (h : rows.Pairwise ahead) :
    r ∈ rows.take n ↔ r ∈ rows ∧ rows.countP (fun r' => decide (ahead r' r)) < n := by
  constructor
  · intro hr
    obtain ⟨front, back, hsplit⟩ := List.append_of_mem hr
    have hrows : rows = front ++ r :: (back ++ rows.drop n) := by
      rw [← List.cons_append, ← List.append_assoc, ← hsplit, List.take_append_drop]
    have hlength := congrArg List.length hsplit
    simp only [List.length_take, List.length_append, List.length_cons] at hlength
    refine ⟨List.mem_of_mem_take hr, ?_⟩
    rw [hrows] at h ⊢
    rw [countP_ahead hasymm h]
    omega
  · rintro ⟨hr, hcount⟩
    obtain ⟨front, back, rfl⟩ := List.append_of_mem hr
    rw [countP_ahead hasymm h] at hcount
    rw [List.take_append, List.mem_append]
    obtain ⟨k, hk⟩ : ∃ k, n - front.length = k + 1 := ⟨n - front.length - 1, by omega⟩
    right
    rw [hk]
    simp

end

/-! ## Sorting from the largest -/

section

variable {Rank : Type} [LinearOrder Rank]

/-- The rows from the largest rank down. Rows of one rank stay in their order. -/
def fromLargest (rank : Row → Rank) (rows : List Row) : List Row :=
  rows.insertionSort fun a b => rank b ≤ rank a

variable {rank : Row → Rank} {rows : List Row} {r : Row} {n : ℕ}

theorem fromLargest_perm : (fromLargest rank rows).Perm rows := List.perm_insertionSort _ _

@[simp] theorem mem_fromLargest : r ∈ fromLargest rank rows ↔ r ∈ rows :=
  fromLargest_perm.mem_iff

theorem fromLargest_sorted : (fromLargest rank rows).Pairwise fun a b => rank b ≤ rank a := by
  have htotal : Std.Total fun a b : Row => rank b ≤ rank a := ⟨fun a b => le_total _ _⟩
  have htrans : IsTrans Row fun a b => rank b ≤ rank a := ⟨fun _ _ _ h h' => le_trans h' h⟩
  exact List.pairwise_insertionSort _ _

/-- Distinct ranks leave no choice. -/
theorem fromLargest_strict (h : (rows.map rank).Nodup) :
    (fromLargest rank rows).Pairwise fun a b => rank b < rank a := by
  have hnodup : ((fromLargest rank rows).map rank).Nodup :=
    (fromLargest_perm.map rank).nodup_iff.mpr h
  rw [List.Nodup, List.pairwise_map] at hnodup
  apply (fromLargest_sorted.and hnodup).imp
  rintro a b ⟨hle, hne⟩
  exact lt_of_le_of_ne hle (Ne.symm hne)

/-- Distinct ranks determine the result, in whatever order the rows come. -/
theorem fromLargest_eq_of_perm {rows' : List Row} (hperm : rows.Perm rows')
    (h : (rows.map rank).Nodup) : fromLargest rank rows' = fromLargest rank rows := by
  have h' : (rows'.map rank).Nodup := (hperm.map rank).nodup_iff.mp h
  apply List.Perm.eq_of_pairwise' (fromLargest_strict h') (fromLargest_strict h)
  exact fromLargest_perm.trans (hperm.symm.trans fromLargest_perm.symm)

/-- A row with a distinct rank is among the first `n` where fewer than `n` rows rank above it. -/
theorem mem_take_fromLargest (h : (rows.map rank).Nodup) :
    r ∈ (fromLargest rank rows).take n ↔
      r ∈ rows ∧ rows.countP (fun r' => decide (rank r < rank r')) < n := by
  rw [mem_take_iff (fun a b hab hba => lt_asymm hab hba) (fromLargest_strict h), mem_fromLargest,
    fromLargest_perm.countP_eq]

/-- One row is ahead of another: it ranks above it, or it ranks alike and comes earlier. -/
def Ahead [DecidableEq Row] (rank : Row → Rank) (rows : List Row) (a b : Row) : Prop :=
  rank b < rank a ∨ rank a = rank b ∧ rows.idxOf a < rows.idxOf b

instance [DecidableEq Row] : DecidableRel (Ahead rank rows) := fun a b =>
  inferInstanceAs (Decidable (rank b < rank a ∨ rank a = rank b ∧ rows.idxOf a < rows.idxOf b))

variable [DecidableEq Row]

theorem ahead_asymm {a b : Row} (h : Ahead rank rows a b) : ¬ Ahead rank rows b a := by
  rintro (hba | ⟨heq, hba⟩)
  · rcases h with hab | ⟨heq, -⟩
    · exact lt_asymm hab hba
    · exact absurd heq hba.ne
  · rcases h with hab | ⟨-, hab⟩
    · exact absurd heq hab.ne
    · omega

theorem pair_sublist {a b : Row} (ha : a ∈ rows) (hb : b ∈ rows)
    (h : rows.idxOf a < rows.idxOf b) : [a, b].Sublist rows := by
  induction rows with
  | nil => cases ha
  | cons r rows ih =>
    by_cases har : r = a
    · subst har
      have hb' : b ∈ rows := by
        rcases List.mem_cons.mp hb with rfl | hb
        · exact absurd h (lt_irrefl _)
        · exact hb
      exact (List.singleton_sublist.mpr hb').cons_cons r
    · have hbr : r ≠ b := by
        intro hbr
        rw [hbr, List.idxOf_cons_self] at h
        exact absurd h (Nat.not_lt_zero _)
      rw [List.idxOf_cons_ne _ har, List.idxOf_cons_ne _ hbr] at h
      have ha' := (List.mem_cons.mp ha).resolve_left (Ne.symm har)
      have hb' := (List.mem_cons.mp hb).resolve_left (Ne.symm hbr)
      exact (ih ha' hb' (by omega)).cons r

theorem idxOf_lt_of_pair_sublist {a b : Row} (h : rows.Nodup) (hab : [a, b].Sublist rows) :
    rows.idxOf a < rows.idxOf b := by
  induction rows with
  | nil => cases hab
  | cons r rows ih =>
    rw [List.nodup_cons] at h
    cases hab with
    | cons _ hab =>
      have hmem : ∀ c ∈ [a, b], r ≠ c := fun c hc hrc => h.1 (hrc ▸ hab.subset hc)
      rw [List.idxOf_cons_ne _ (hmem a (by simp)), List.idxOf_cons_ne _ (hmem b (by simp))]
      exact Nat.succ_lt_succ (ih h.2 hab)
    | cons_cons _ hb =>
      have hrb : a ≠ b := fun heq => h.1 (heq ▸ hb.subset List.mem_cons_self)
      rw [List.idxOf_cons_self, List.idxOf_cons_ne _ hrb]
      exact Nat.succ_pos _

/-- The sort is stable: of two rows the one that comes first is ahead. -/
theorem fromLargest_ahead (h : rows.Nodup) : (fromLargest rank rows).Pairwise (Ahead rank rows) := by
  have hnodup : (fromLargest rank rows).Nodup := fromLargest_perm.nodup_iff.mpr h
  apply List.pairwise_iff_forall_sublist.mpr
  intro a b hab
  have hle := List.pairwise_iff_forall_sublist.mp fromLargest_sorted hab
  have ha : a ∈ rows := mem_fromLargest.mp (hab.subset List.mem_cons_self)
  have hb : b ∈ rows := mem_fromLargest.mp (hab.subset (by simp))
  have hsorted := idxOf_lt_of_pair_sublist hnodup hab
  rcases hle.lt_or_eq with hlt | heq
  · exact .inl hlt
  · right
    refine ⟨heq.symm, ?_⟩
    by_contra hnot
    have hidx : rows.idxOf b ≠ rows.idxOf a := by
      intro hidx
      rw [(List.idxOf_inj hb).mp hidx] at hsorted
      exact lt_irrefl _ hsorted
    have hba : [b, a].Sublist (fromLargest rank rows) :=
      List.pair_sublist_insertionSort heq.ge (pair_sublist hb ha (by omega))
    have hback := idxOf_lt_of_pair_sublist hnodup hba
    omega

/-- A row is among the first `n` where fewer than `n` rows are ahead of it. -/
theorem mem_take_ahead (h : rows.Nodup) :
    r ∈ (fromLargest rank rows).take n ↔
      r ∈ rows ∧ rows.countP (fun r' => decide (Ahead rank rows r' r)) < n := by
  rw [mem_take_iff (fun _ _ => ahead_asymm) (fromLargest_ahead h), mem_fromLargest,
    fromLargest_perm.countP_eq]

end

/-! ## The first row of every key -/

section

variable [DecidableEq Key] {key : Row → Key} {seen : List Key} {rows : List Row} {r : Row}

/-- Keep the first row of every key that has not been seen. -/
def keepFirst (key : Row → Key) : List Key → List Row → List Row
  | _, [] => []
  | seen, r :: rows =>
    if key r ∈ seen then keepFirst key seen rows else r :: keepFirst key (key r :: seen) rows

theorem keepFirst_seen (h : key r ∈ seen) :
    keepFirst key seen (r :: rows) = keepFirst key seen rows := if_pos h

theorem keepFirst_new (h : key r ∉ seen) :
    keepFirst key seen (r :: rows) = r :: keepFirst key (key r :: seen) rows := if_neg h

theorem keepFirst_sublist : (keepFirst key seen rows).Sublist rows := by
  induction rows generalizing seen with
  | nil => exact .slnil
  | cons r rows ih =>
    by_cases hr : key r ∈ seen
    · rw [keepFirst_seen hr]
      exact ih.cons r
    · rw [keepFirst_new hr]
      exact ih.cons_cons r

/-- Every key that has not been seen is kept. -/
theorem mem_map_keepFirst {k : Key} :
    k ∈ (keepFirst key seen rows).map key ↔ k ∈ rows.map key ∧ k ∉ seen := by
  induction rows generalizing seen with
  | nil =>
    constructor
    · intro hk
      cases hk
    · rintro ⟨hk, -⟩
      cases hk
  | cons r rows ih =>
    by_cases hr : key r ∈ seen
    · rw [keepFirst_seen hr, ih, List.map_cons, List.mem_cons]
      constructor
      · exact fun ⟨hk, hseen⟩ => ⟨.inr hk, hseen⟩
      · rintro ⟨rfl | hk, hseen⟩
        · exact absurd hr hseen
        · exact ⟨hk, hseen⟩
    · rw [keepFirst_new hr, List.map_cons, List.mem_cons, ih, List.map_cons, List.mem_cons,
        List.mem_cons]
      by_cases hk : k = key r
      · simp [hk, hr]
      · simp [hk]

theorem nodup_map_keepFirst : ((keepFirst key seen rows).map key).Nodup := by
  induction rows generalizing seen with
  | nil => exact List.nodup_nil
  | cons r rows ih =>
    by_cases hr : key r ∈ seen
    · rw [keepFirst_seen hr]
      exact ih
    · rw [keepFirst_new hr, List.map_cons, List.nodup_cons, mem_map_keepFirst]
      exact ⟨fun hmem => hmem.2 List.mem_cons_self, ih⟩

/-- What is kept comes before the other rows of its key. -/
theorem keepFirst_first {before : Row → Row → Prop} (h : rows.Pairwise before)
    (hr : r ∈ keepFirst key seen rows) {r' : Row} (hr' : r' ∈ rows) (hkey : key r' = key r) :
    r' = r ∨ before r r' := by
  induction rows generalizing seen with
  | nil => cases hr'
  | cons a rows ih =>
    rw [List.pairwise_cons] at h
    by_cases ha : key a ∈ seen
    · rw [keepFirst_seen ha] at hr
      have hunseen := (mem_map_keepFirst.mp (List.mem_map_of_mem hr)).2
      rcases List.mem_cons.mp hr' with rfl | hr'
      · exact absurd (hkey ▸ ha) hunseen
      · exact ih h.2 hr hr'
    · rw [keepFirst_new ha] at hr
      rcases List.mem_cons.mp hr with rfl | hr
      · rcases List.mem_cons.mp hr' with rfl | hr'
        · exact .inl rfl
        · exact .inr (h.1 r' hr')
      · have hunseen := (mem_map_keepFirst.mp (List.mem_map_of_mem hr)).2
        rcases List.mem_cons.mp hr' with rfl | hr'
        · exact absurd (hkey ▸ List.mem_cons_self) hunseen
        · exact ih h.2 hr hr'

end

/-! ## The latest row of every key -/

section

variable [DecidableEq Key] {Time : Type} [LinearOrder Time] {key : Row → Key} {time : Row → Time}
  {rows : List Row} {r : Row} {n : ℕ}

/-- The rows that no row of their key is later than. -/
def latest (key : Row → Key) (time : Row → Time) (rows : List Row) : List Row :=
  rows.filter fun r => rows.all fun r' => key r' ≠ key r || time r' ≤ time r

theorem mem_latest :
    r ∈ latest key time rows ↔ r ∈ rows ∧ ∀ r' ∈ rows, key r' = key r → time r' ≤ time r := by
  simp only [latest, List.mem_filter, List.all_eq_true, Bool.or_eq_true, decide_eq_true_eq]
  exact and_congr_right fun _ => forall_congr' fun r' => imp_congr_right fun _ =>
    Decidable.imp_iff_not_or.symm

theorem exists_latest (key : Row → Key) (time : Row → Time) (hr : r ∈ rows) :
    ∃ l ∈ latest key time rows, key l = key r := by
  have hmem : r ∈ rows.filter fun r' => key r' = key r := by
    simp [hr]
  cases hmax : (rows.filter fun r' => key r' = key r).argmax time with
  | none =>
    rw [List.argmax_eq_none.mp hmax] at hmem
    cases hmem
  | some l =>
    have hl := List.mem_filter.mp (List.argmax_mem hmax)
    have hkey : key l = key r := of_decide_eq_true hl.2
    refine ⟨l, mem_latest.mpr ⟨hl.1, fun r' hr' hkey' => ?_⟩, hkey⟩
    apply List.le_of_mem_argmax _ hmax
    simp [hr', hkey', hkey]

/-- Where no two rows have one time, a key has one latest row. -/
theorem nodup_map_latest (h : (rows.map time).Nodup) : ((latest key time rows).map key).Nodup := by
  apply List.Nodup.map_on _ ((h.of_map).filter _)
  intro a ha b hb hkey
  have ha' := mem_latest.mp ha
  have hb' := mem_latest.mp hb
  apply List.inj_on_of_nodup_map h ha'.1 hb'.1
  exact le_antisymm (hb'.2 a ha'.1 hkey) (ha'.2 b hb'.1 hkey.symm)

theorem map_latest_perm (h : (rows.map time).Nodup) :
    ((latest key time rows).map key).Perm (rows.map key).dedup := by
  apply (List.perm_ext_iff_of_nodup (nodup_map_latest h) (List.nodup_dedup _)).mpr
  intro k
  simp only [List.mem_dedup, List.mem_map]
  constructor
  · rintro ⟨l, hl, rfl⟩
    exact ⟨l, (mem_latest.mp hl).1, rfl⟩
  · rintro ⟨r, hr, rfl⟩
    exact exists_latest key time hr

/-- The newest `n` rows hold the latest row of every key. -/
def Within (n : ℕ) (key : Row → Key) (time : Row → Time) (rows : List Row) : Prop :=
  ∀ r ∈ latest key time rows, rows.countP (fun r' => decide (time r < time r')) < n

instance : Decidable (Within n key time rows) := by
  unfold Within
  infer_instance

theorem within_of_length_le (h : rows.length ≤ n) : Within n key time rows := by
  intro r hr
  have hlt : rows.countP (fun r' => decide (time r < time r')) < rows.length := by
    apply lt_of_le_of_ne List.countP_le_length
    intro heq
    have hself := List.countP_eq_length.mp heq r (mem_latest.mp hr).1
    simp at hself
  exact lt_of_lt_of_le hlt h

/-- A scan of the newest rows finds the latest row of every key among them. -/
theorem keepFirst_perm_latest (h : (rows.map time).Nodup) (hwithin : Within n key time rows) :
    (keepFirst key [] ((fromLargest time rows).take n)).Perm (latest key time rows) := by
  have hnewest : ∀ r ∈ latest key time rows, r ∈ (fromLargest time rows).take n := fun r hr =>
    (mem_take_fromLargest h).mpr ⟨(mem_latest.mp hr).1, hwithin r hr⟩
  have hsorted : ((fromLargest time rows).take n).Pairwise fun a b => time b < time a :=
    (fromLargest_strict h).sublist (List.take_sublist _ _)
  apply (List.perm_ext_iff_of_nodup (List.Nodup.of_map key nodup_map_keepFirst)
    (h.of_map.filter _)).mpr
  intro r
  constructor
  · intro hr
    have hrows : r ∈ rows :=
      mem_fromLargest.mp (List.mem_of_mem_take (keepFirst_sublist.subset hr))
    refine mem_latest.mpr ⟨hrows, fun r' hr' hkey => ?_⟩
    obtain ⟨l, hl, hlkey⟩ := exists_latest key time hr'
    have hle : time r' ≤ time l := (mem_latest.mp hl).2 r' hr' hlkey.symm
    rcases keepFirst_first hsorted hr (hnewest l hl) (hlkey.trans hkey) with rfl | hlt
    · exact hle
    · exact hle.trans hlt.le
  · intro hr
    have hkept : key r ∈ (keepFirst key [] ((fromLargest time rows).take n)).map key :=
      mem_map_keepFirst.mpr ⟨List.mem_map_of_mem (hnewest r hr), List.not_mem_nil⟩
    obtain ⟨kept, hmem, hkey⟩ := List.mem_map.mp hkept
    rcases keepFirst_first hsorted hmem (hnewest r hr) hkey.symm with rfl | hlt
    · exact hmem
    · have hrows : kept ∈ rows :=
        mem_fromLargest.mp (List.mem_of_mem_take (keepFirst_sublist.subset hmem))
      exact absurd ((mem_latest.mp hr).2 kept hrows hkey) (not_le.mpr hlt)

/-- A scan of the newest rows that finds every key has the latest row of each among them. -/
theorem within_of_keepFirst (h : (rows.map time).Nodup)
    (hkeys : ∀ r ∈ rows, key r ∈ (keepFirst key [] ((fromLargest time rows).take n)).map key) :
    Within n key time rows := by
  intro r hr
  obtain ⟨kept, hmem, hkey⟩ := List.mem_map.mp (hkeys r (mem_latest.mp hr).1)
  have htake := (mem_take_fromLargest h).mp (keepFirst_sublist.subset hmem)
  have hle : time kept ≤ time r := (mem_latest.mp hr).2 kept htake.1 hkey
  apply lt_of_le_of_lt _ htake.2
  apply List.countP_mono_left
  intro r' _ hlater
  rw [decide_eq_true_eq] at hlater ⊢
  exact lt_of_le_of_lt hle hlater

end

end NexusEngine.RankedRows
