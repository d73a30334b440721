import NexusEngine.RankedRows
import Mathlib.Data.List.Nodup

/-!
# Pages of a query

A listing is read page by page, up to the first empty page. Where every query returns the rows in
one order, the pages are the rows. Where the order leaves ties and every query may break them in
its own way, the pages are the rows exactly if no tie crosses the border of two pages.
-/

namespace NexusEngine.Paging

open RankedRows

variable {Row Item : Type}

/-- The page with the number `k + 1`. -/
def page (rows : List Row) (size k : ℕ) : List Row := (rows.drop (k * size)).take size

/-- The number of pages that are not empty. -/
def pageCount (n size : ℕ) : ℕ := (n + size - 1) / size

/-- The pages with the numbers from one on, up to the first empty one, as they are fetched: all
report the same total, and all but the last one are full. -/
structure Fetched (fetch : ℕ → Option (List Item × ℕ)) (size total : ℕ)
    (pages : List (List Item)) : Prop where
  answered : ∀ k p, pages[k]? = some p → fetch (k + 1) = some (p, total)
  ends : fetch (pages.length + 1) = some ([], total)
  nonempty : [] ∉ pages
  full : ∀ p ∈ pages.dropLast, p.length = size

/-- The offset of the page with the number `k + 1`. -/
theorem offset_succ (k size : ℕ) : ((k + 1 : ℕ) - 1 : ℤ) * (size : ℤ) = ((k * size : ℕ) : ℤ) := by
  rw [Int.natCast_succ, Int.add_sub_cancel, Int.natCast_mul]

section

variable {rows : List Row} {size n k : ℕ}

theorem lt_pageCount (hsize : 0 < size) : k < pageCount n size ↔ k * size < n := by
  have hstep : (k + 1) * size = k * size + size := Nat.succ_mul k size
  rw [pageCount, ← Nat.succ_le_iff, Nat.le_div_iff_mul_le hsize, Nat.succ_eq_add_one, hstep]
  omega

theorem page_eq_nil (hsize : 0 < size) : page rows size k = [] ↔ rows.length ≤ k * size := by
  rw [page, List.take_eq_nil_iff, List.drop_eq_nil_iff]
  constructor
  · rintro (h | h)
    · omega
    · exact h
  · exact .inr

theorem length_page (h : (k + 1) * size ≤ rows.length) : (page rows size k).length = size := by
  have hstep : (k + 1) * size = k * size + size := Nat.succ_mul k size
  rw [page, List.length_take, List.length_drop]
  omega

/-- The first pages are the first rows. -/
theorem flatMap_page (rows : List Row) (size k : ℕ) :
    (List.range k).flatMap (page rows size) = rows.take (k * size) := by
  induction k with
  | zero => simp
  | succ k ih =>
    rw [List.range_succ, List.flatMap_append, ih, List.flatMap_singleton, page, Nat.succ_mul,
      List.take_add]

theorem flatMap_pages (hsize : 0 < size) :
    (List.range (pageCount rows.length size)).flatMap (page rows size) = rows := by
  rw [flatMap_page]
  apply List.take_of_length_le
  apply not_lt.mp
  intro hlt
  exact lt_irrefl _ ((lt_pageCount hsize).mpr hlt)

/-- A listing that answers every page up to the end is fetched as a whole. -/
theorem fetched_pages {fetch : ℕ → Option (List Item × ℕ)} {L : ℕ → List Row} {f : Row → Item}
    (hsize : 0 < size) (hlength : ∀ k, (L k).length = n)
    (hfetch : ∀ k ≤ pageCount n size, fetch (k + 1) = some ((page (L k) size k).map f, n)) :
    Fetched fetch size n
      ((List.range (pageCount n size)).map fun k => (page (L k) size k).map f) where
  answered := by
    intro k p hp
    obtain ⟨hk, rfl⟩ := List.getElem?_eq_some_iff.mp hp
    simp only [List.length_map, List.length_range] at hk
    simp only [List.getElem_map, List.getElem_range]
    exact hfetch k hk.le
  ends := by
    rw [List.length_map, List.length_range, hfetch _ le_rfl]
    have hend : n ≤ pageCount n size * size := by
      apply not_lt.mp
      intro hlt
      exact lt_irrefl _ ((lt_pageCount hsize).mpr hlt)
    rw [(page_eq_nil hsize).mpr (by rw [hlength]; exact hend), List.map_nil]
  nonempty := by
    intro hmem
    obtain ⟨k, hk, hnil⟩ := List.mem_map.mp hmem
    rw [List.map_eq_nil_iff, page_eq_nil hsize, hlength] at hnil
    have hlt := (lt_pageCount hsize).mp (List.mem_range.mp hk)
    omega
  full := by
    intro p hp
    rw [← List.map_dropLast] at hp
    obtain ⟨k, hk, rfl⟩ := List.mem_map.mp hp
    have hk' : k + 1 < pageCount n size := by
      obtain ⟨i, hi, hik⟩ := List.mem_iff_getElem.mp hk
      simp only [List.length_dropLast, List.length_range] at hi
      simp only [List.getElem_dropLast, List.getElem_range] at hik
      omega
    rw [List.length_map, length_page]
    rw [hlength]
    exact ((lt_pageCount hsize).mp hk').le

/-- The pages up to the first empty one are what they are. -/
theorem Fetched.unique {fetch : ℕ → Option (List Item × ℕ)} {size size' total total' : ℕ}
    {pages pages' : List (List Item)} (h : Fetched fetch size total pages)
    (h' : Fetched fetch size' total' pages') : pages = pages' := by
  -- the shorter of the two ends with an empty page, which the longer one has not
  have hshort : ∀ {s s' t t' : ℕ} {ps ps' : List (List Item)}, Fetched fetch s t ps →
      Fetched fetch s' t' ps' → ps'.length ≤ ps.length := by
    intro s s' t t' ps ps' hps hps'
    by_contra hlt
    rw [not_le] at hlt
    have hanswered := hps'.answered ps.length _ (List.getElem?_eq_getElem hlt)
    rw [hps.ends, Option.some.injEq, Prod.mk.injEq] at hanswered
    exact hps'.nonempty (hanswered.1 ▸ List.getElem_mem hlt)
  apply List.ext_getElem (le_antisymm (hshort h' h) (hshort h h'))
  intro k hk hk'
  have hp := h.answered k _ (List.getElem?_eq_getElem hk)
  rw [h'.answered k _ (List.getElem?_eq_getElem hk'), Option.some.injEq, Prod.mk.injEq] at hp
  exact hp.1.symm

/-- A listing that answers a page where its offset is accepted is fetched as a whole exactly where
the offset of the first empty page is. -/
theorem fetched_iff {fetch : ℕ → Option (List Item × ℕ)} {L : ℕ → List Row} {f : Row → Item}
    {ok : ℕ → Prop} [DecidablePred ok] (hsize : 0 < size) (hlength : ∀ k, (L k).length = n)
    (hdown : ∀ a b, a ≤ b → ok b → ok a)
    (hfetch : ∀ k, fetch (k + 1) =
      if ok (k * size) then some ((page (L k) size k).map f, n) else none)
    (Q : List (List Item) → Prop) :
    (∃ pages, Fetched fetch size n pages ∧ Q pages) ↔ ok (pageCount n size * size) ∧
      Q ((List.range (pageCount n size)).map fun k => (page (L k) size k).map f) := by
  have hpages : ok (pageCount n size * size) → Fetched fetch size n
      ((List.range (pageCount n size)).map fun k => (page (L k) size k).map f) := by
    intro hok
    apply fetched_pages hsize hlength
    intro k hk
    rw [hfetch, if_pos (hdown _ _ (Nat.mul_le_mul_right size hk) hok)]
  constructor
  · rintro ⟨pages, hfetched, hQ⟩
    have hok : ok (pageCount n size * size) := by
      have hends := hfetched.ends
      rw [hfetch] at hends
      split at hends
      · next hlast =>
        rw [Option.some.injEq, Prod.mk.injEq, List.map_eq_nil_iff, page_eq_nil hsize,
          hlength] at hends
        apply hdown _ _ (Nat.mul_le_mul_right size _) hlast
        apply not_lt.mp
        intro hlt
        have hmore := (lt_pageCount hsize).mp hlt
        omega
      · cases hends
    refine ⟨hok, ?_⟩
    rw [(hpages hok).unique hfetched]
    exact hQ
  · rintro ⟨hok, hQ⟩
    exact ⟨_, hpages hok, hQ⟩

end

/-! ## Ties

What `ORDER BY` guarantees is a permutation of the rows that is sorted by the key. The key at
every place is the same for all of them, the row need not be.
-/

section

variable {Rank : Type} [LinearOrder Rank] {key : Row → Rank} {rows L L' : List Row}
  {size n k m : ℕ}

/-- The rows as a query may return them, from the largest key down. -/
structure Returned (key : Row → Rank) (rows L : List Row) : Prop where
  perm : L.Perm rows
  sorted : L.Pairwise fun a b => key b ≤ key a

theorem returned_fromLargest : Returned key rows (fromLargest key rows) :=
  ⟨fromLargest_perm, fromLargest_sorted⟩

theorem Returned.map_key (h : Returned key rows L) : L.map key = (fromLargest key rows).map key := by
  have hsorted : (L.map key).Pairwise (· ≥ ·) := List.pairwise_map.mpr h.sorted
  have hsorted' : ((fromLargest key rows).map key).Pairwise (· ≥ ·) :=
    List.pairwise_map.mpr fromLargest_sorted
  have hperm : (L.map key).Perm ((fromLargest key rows).map key) :=
    (h.perm.trans fromLargest_perm.symm).map key
  exact hperm.eq_of_pairwise (fun _ _ _ _ hab hba => le_antisymm hba hab) hsorted hsorted'

/-- The rows next to a border have different keys. -/
def DistinctAt (key : Row → Rank) (rows : List Row) (m : ℕ) : Prop :=
  ((fromLargest key rows).map key)[m - 1]? ≠ ((fromLargest key rows).map key)[m]?

/-- At every border between two pages the keys differ. -/
def BordersDistinct (size : ℕ) (key : Row → Rank) (rows : List Row) : Prop :=
  ∀ k, 0 < k → k * size < rows.length → DistinctAt key rows (k * size)

/-- At a border with different keys the rows before it are those with a larger key. -/
theorem Returned.take_eq_filter (h : Returned key rows L) (hm : 0 < m) (hlt : m < rows.length)
    (hborder : DistinctAt key rows m) :
    ∃ t, ((fromLargest key rows).map key)[m]? = some t ∧
      L.take m = L.filter fun r => t < key r := by
  have hlength := h.perm.length_eq
  have hmL : m < L.length := by omega
  have hpred : m - 1 < L.length := by omega
  rw [DistinctAt, ← h.map_key, List.getElem?_map, List.getElem?_map,
    List.getElem?_eq_getElem hmL, List.getElem?_eq_getElem hpred] at hborder
  refine ⟨key L[m], by rw [← h.map_key, List.getElem?_map, List.getElem?_eq_getElem hmL]; rfl, ?_⟩
  have hsorted := List.pairwise_iff_getElem.mp h.sorted
  have hstrict : key L[m] < key L[m - 1] := by
    apply lt_of_le_of_ne (hsorted (m - 1) m hpred hmL (by omega))
    intro heq
    exact hborder (by simp [heq])
  have hfront : (L.take m).filter (fun r => decide (key L[m] < key r)) = L.take m := by
    apply List.filter_eq_self.mpr
    intro r hr
    obtain ⟨i, hi, rfl⟩ := List.mem_iff_getElem.mp hr
    rw [List.length_take] at hi
    rw [List.getElem_take, decide_eq_true_eq]
    rcases Nat.lt_or_ge i (m - 1) with hi' | hi'
    · exact lt_of_lt_of_le hstrict (hsorted i (m - 1) (by omega) hpred hi')
    · have hi'' : i = m - 1 := by omega
      subst hi''
      exact hstrict
  have hback : (L.drop m).filter (fun r => decide (key L[m] < key r)) = [] := by
    apply List.filter_eq_nil_iff.mpr
    intro r hr
    obtain ⟨i, hi, rfl⟩ := List.mem_iff_getElem.mp hr
    rw [List.length_drop] at hi
    rw [List.getElem_drop, decide_eq_true_eq, not_lt]
    rcases Nat.eq_zero_or_pos i with rfl | hpos
    · exact le_rfl
    · exact hsorted m (m + i) hmL (by omega) (by omega)
  have hsplit := congrArg (List.filter fun r => decide (key L[m] < key r))
    (List.take_append_drop m L)
  rw [List.filter_append, hfront, hback, List.append_nil] at hsplit
  exact hsplit

/-- The same rows come before such a border, however the ties are broken. -/
theorem Returned.take_perm (h : Returned key rows L) (h' : Returned key rows L')
    (hborder : 0 < m → m < rows.length → DistinctAt key rows m) : (L.take m).Perm (L'.take m) := by
  have hperm : L.Perm L' := h.perm.trans h'.perm.symm
  rcases Nat.eq_zero_or_pos m with rfl | hm
  · simp
  rcases Nat.lt_or_ge m rows.length with hlt | hge
  · obtain ⟨t, ht, htake⟩ := h.take_eq_filter hm hlt (hborder hm hlt)
    obtain ⟨t', ht', htake'⟩ := h'.take_eq_filter hm hlt (hborder hm hlt)
    rw [ht, Option.some.injEq] at ht'
    subst ht'
    rw [htake, htake']
    exact hperm.filter _
  · rw [List.take_of_length_le (by rw [h.perm.length_eq]; exact hge),
      List.take_of_length_le (by rw [h'.perm.length_eq]; exact hge)]
    exact hperm

theorem Returned.page_perm (h : Returned key rows L) (h' : Returned key rows L')
    (hborders : BordersDistinct size key rows) (k : ℕ) :
    (page L size k).Perm (page L' size k) := by
  have hsize : ∀ k, 0 < k * size → 0 < k := fun k => Nat.pos_of_mul_pos_right
  have hbefore := h.take_perm h' fun hpos hlt => hborders k (hsize k hpos) hlt
  have hafter := h.take_perm h' fun hpos hlt => hborders (k + 1) (hsize (k + 1) hpos) hlt
  rw [Nat.succ_mul, List.take_add, List.take_add] at hafter
  exact (List.perm_append_left_iff _).mp ((hbefore.symm.append_right _).trans hafter)

/-- Without a tie across a border the pages are the rows, whatever ties each query breaks. -/
theorem flatMap_page_perm (hsize : 0 < size) {queries : ℕ → List Row}
    (hqueries : ∀ k, Returned key rows (queries k)) (hborders : BordersDistinct size key rows) :
    ((List.range (pageCount rows.length size)).flatMap fun k => page (queries k) size k).Perm
      rows := by
  have hpages : ((List.range (pageCount rows.length size)).flatMap fun k =>
      page (queries k) size k).Perm ((List.range (pageCount rows.length size)).flatMap
        (page (fromLargest key rows) size)) := by
    apply List.Perm.flatMap_left
    intro k _
    exact (hqueries k).page_perm returned_fromLargest hborders k
  have hlength : (fromLargest key rows).length = rows.length := fromLargest_perm.length_eq
  apply hpages.trans
  rw [← hlength, flatMap_pages hsize]
  exact fromLargest_perm

theorem getElem_mem_page {i : ℕ} (hi : i < L.length) (hfrom : k * size ≤ i)
    (hto : i < k * size + size) : L[i] ∈ page L size k := by
  apply List.mem_iff_getElem.mpr
  refine ⟨i - k * size, ?_, ?_⟩
  · rw [page, List.length_take, List.length_drop]
    omega
  · simp only [page, List.getElem_take, List.getElem_drop]
    congr 1
    omega

/-- Two neighbours with one key may change places. -/
theorem returned_swap {front back : List Row} {a b : Row}
    (h : Returned key rows (front ++ a :: b :: back)) (hkey : key a = key b) :
    Returned key rows (front ++ b :: a :: back) where
  perm := ((List.Perm.swap a b back).append_left front).trans h.perm
  sorted := by
    have hmap : (front ++ b :: a :: back).map key = (front ++ a :: b :: back).map key := by
      simp [hkey]
    have hsorted : ((front ++ a :: b :: back).map key).Pairwise (· ≥ ·) :=
      List.pairwise_map.mpr h.sorted
    rw [← hmap] at hsorted
    exact List.pairwise_map.mp hsorted

/-- With a tie across a border two queries may return one row on both pages. -/
theorem exists_repeated (hsize : 0 < size) (hlt : (k + 1) * size < rows.length)
    (htie : ¬ DistinctAt key rows ((k + 1) * size)) :
    ∃ queries : ℕ → List Row, (∀ j, Returned key rows (queries j)) ∧
      ¬ ((List.range (pageCount rows.length size)).flatMap fun j =>
        page (queries j) size j).Nodup := by
  have hstep : (k + 1) * size = k * size + size := Nat.succ_mul k size
  have hlength : (fromLargest key rows).length = rows.length := fromLargest_perm.length_eq
  have hnext : (k + 1) * size < (fromLargest key rows).length := by omega
  have hlast : (k + 1) * size - 1 < (fromLargest key rows).length := by omega
  rw [DistinctAt, not_not, List.getElem?_map, List.getElem?_map, List.getElem?_eq_getElem hnext,
    List.getElem?_eq_getElem hlast, Option.map_some, Option.map_some, Option.some.injEq] at htie
  obtain ⟨front, a, b, back, hfront, ha, hb, hsplit⟩ : ∃ front a b back,
      front.length = (k + 1) * size - 1 ∧ a = (fromLargest key rows)[(k + 1) * size - 1] ∧
        b = (fromLargest key rows)[(k + 1) * size] ∧
          fromLargest key rows = front ++ a :: b :: back := by
    refine ⟨(fromLargest key rows).take ((k + 1) * size - 1), _, _,
      (fromLargest key rows).drop ((k + 1) * size + 1), ?_, rfl, rfl, ?_⟩
    · rw [List.length_take]
      omega
    · have hdrop := List.drop_eq_getElem_cons hlast
      have hdrop' := List.drop_eq_getElem_cons hnext
      have hsucc : (k + 1) * size - 1 + 1 = (k + 1) * size := by omega
      rw [hsucc, hdrop'] at hdrop
      rw [← hdrop, List.take_append_drop]
  have hswapped : Returned key rows (front ++ b :: a :: back) := by
    apply returned_swap _ (by rw [ha, hb]; exact htie)
    rw [← hsplit]
    exact returned_fromLargest
  -- the page before the border as it is sorted, the page after it with the two rows swapped
  refine ⟨fun j => if j = k + 1 then front ++ b :: a :: back else fromLargest key rows,
    fun j => ?_, fun hnodup => ?_⟩
  · dsimp only
    split
    · exact hswapped
    · exact returned_fromLargest
  · obtain ⟨-, hdisjoint⟩ := List.nodup_flatMap.mp hnodup
    have hcount : k + 1 < pageCount rows.length size := (lt_pageCount hsize).mpr hlt
    have hpages := List.pairwise_iff_getElem.mp hdisjoint k (k + 1)
      (by rw [List.length_range]; omega) (by rw [List.length_range]; exact hcount) (by omega)
    simp only [Function.onFun, List.getElem_range, if_true, Nat.ne_of_lt (Nat.lt_succ_self k),
      if_false] at hpages
    have hbefore : a ∈ page (fromLargest key rows) size k := by
      rw [ha]
      exact getElem_mem_page hlast (by omega) (by omega)
    have hafter : a ∈ page (front ++ b :: a :: back) size (k + 1) := by
      have hi : (k + 1) * size < (front ++ b :: a :: back).length := by
        rw [hswapped.perm.length_eq]
        exact hlt
      have hget : (front ++ b :: a :: back)[(k + 1) * size] = a := by
        rw [List.getElem_append_right (by omega)]
        have hone : (k + 1) * size - front.length = 1 := by omega
        simp only [hone, List.getElem_cons_succ, List.getElem_cons_zero]
      have hmem := getElem_mem_page (k := k + 1) hi le_rfl (by omega)
      rw [hget] at hmem
      exact hmem
    exact hpages hbefore hafter

/-- However each query breaks its ties, the pages are the rows: exactly where no tie crosses a
border. -/
theorem pages_perm_iff {f : Row → Item} (hsize : 0 < size) (hnodup : (rows.map f).Nodup) :
    (∀ queries : ℕ → List Row, (∀ k, Returned key rows (queries k)) →
      ((List.range (pageCount rows.length size)).map fun k =>
        (page (queries k) size k).map f).flatten.Perm (rows.map f)) ↔
      BordersDistinct size key rows := by
  have hflatten : ∀ queries : ℕ → List Row, ((List.range (pageCount rows.length size)).map fun k =>
      (page (queries k) size k).map f).flatten =
        ((List.range (pageCount rows.length size)).flatMap fun k =>
          page (queries k) size k).map f := by
    intro queries
    rw [List.map_flatMap, List.flatMap_def]
  constructor
  · intro hall k hpos hlt
    by_contra htie
    obtain ⟨j, rfl⟩ : ∃ j, k = j + 1 := ⟨k - 1, by omega⟩
    obtain ⟨queries, hqueries, hrepeated⟩ := exists_repeated hsize hlt htie
    have hperm := hall queries hqueries
    rw [hflatten] at hperm
    exact hrepeated (List.Nodup.of_map f (hperm.nodup_iff.mpr hnodup))
  · intro hborders queries hqueries
    rw [hflatten]
    exact (flatMap_page_perm hsize hqueries hborders).map f

end

end NexusEngine.Paging
