import NexusEngine.Paging

/-!
# Pages of a table that grows

A listing is fetched page by page, the row of the largest rank first, while rows are added to the
table. A row that is added above a page moves the rows below it down. So a row can be fetched twice,
but none that was there from the start is left out.
-/

namespace NexusEngine.GrowingPages

open RankedRows Paging

variable {Row Rank : Type} [LinearOrder Rank] {rank : Row → Rank} {rows rows' : List Row} {r : Row}
  {size k : ℕ}

/-- How many rows rank above a row. -/
def above (rank : Row → Rank) (rows : List Row) (r : Row) : ℕ :=
  rows.countP fun r' => decide (rank r < rank r')

/-- A larger table has as many rows that pass a test. -/
theorem length_filter_le_of_subset (h : rows.Nodup) (hsub : rows ⊆ rows') (p : Row → Bool) :
    (rows.filter p).length ≤ (rows'.filter p).length := by
  apply (List.subperm_of_subset (h.filter p) _).length_le
  intro r hr
  rw [List.mem_filter] at hr ⊢
  exact ⟨hsub hr.1, hr.2⟩

theorem above_mono (h : rows.Nodup) (hsub : rows ⊆ rows') :
    above rank rows r ≤ above rank rows' r := by
  rw [above, above, List.countP_eq_length_filter, List.countP_eq_length_filter]
  exact length_filter_le_of_subset h hsub _

theorem above_lt_length (hr : r ∈ rows) : above rank rows r < rows.length := by
  apply lt_of_le_of_ne List.countP_le_length
  intro heq
  have hself := List.countP_eq_length.mp heq r hr
  simp at hself

/-- A row is on the page where its place is. -/
theorem mem_page_fromLargest (h : (rows.map rank).Nodup) (hr : r ∈ rows)
    (hfrom : k * size ≤ above rank rows r) (hto : above rank rows r < (k + 1) * size) :
    r ∈ page (fromLargest rank rows) size k := by
  have htake : r ∈ (fromLargest rank rows).take ((k + 1) * size) :=
    (mem_take_fromLargest h).mpr ⟨hr, hto⟩
  have hnot : r ∉ (fromLargest rank rows).take (k * size) := by
    intro hmem
    have hlt := ((mem_take_fromLargest h).mp hmem).2
    exact absurd hlt (not_lt.mpr hfrom)
  rw [Nat.succ_mul, List.take_add, List.mem_append] at htake
  exact htake.resolve_left hnot

/-- The step lemma: a row that lies at a page or beyond is on the page or lies beyond it. -/
theorem mem_page_or_beyond (h : (rows.map rank).Nodup) (hr : r ∈ rows)
    (hfrom : k * size ≤ above rank rows r) :
    r ∈ page (fromLargest rank rows) size k ∨ (k + 1) * size ≤ above rank rows r := by
  by_cases hto : above rank rows r < (k + 1) * size
  · exact .inl (mem_page_fromLargest h hr hfrom hto)
  · exact .inr (not_lt.mp hto)

/-- Behind an empty page there is nothing. -/
theorem page_ne_nil (hsize : 0 < size) (hr : r ∈ rows) (hfrom : k * size ≤ above rank rows r) :
    page (fromLargest rank rows) size k ≠ [] := by
  intro hempty
  rw [page_eq_nil hsize, fromLargest_perm.length_eq] at hempty
  have hlt : above rank rows r < rows.length := above_lt_length hr
  omega

end NexusEngine.GrowingPages
