import NexusEngine.AuditLogReads
import NexusEngine.Paging

/-!
# The pages of the audit log

Sequence numbers are unique, so that the rows of a listing have one order. Its pages, up to the
first empty one, are the rows that pass its conditions, as long as the database takes the query.
-/

namespace NexusEngine.AuditLogPages

open TransactionalRequests StoredColumns AuditLogTable Database DashboardActivity AuditLogReads
  RankedRows Paging

/-- What a page of a listing answers with, where it is answered. -/
def entriesPage (ilike : String → String → Bool) (q : EntryQuery) (db : Db) (n pageSize : ℕ)
    (page : ℕ) : Option (List AuditLogEntryRead × ℕ) :=
  ((listEntries ilike q page pageSize).serial postgres db db n).result.toOption

/-- The rows that satisfy the conditions of a query. -/
def matching (ilike : String → String → Bool) (q : EntryQuery) (log : List AuditLogEntry) :
    List AuditLogEntry :=
  match q.bind with
  | none => []
  | some filter => log.filter (filter.passes ilike)

/-- The database takes the conditions: a severity and an event type that are members of their
enumerations, and texts without a NUL character. -/
def accepted (q : EntryQuery) : Bool := q.bind.any EntryFilter.sendable

/-- The database takes the query with a page size, at an offset. -/
def Accepts (q : EntryQuery) (pageSize offset : ℕ) : Prop :=
  accepted q = true ∧ isRowCount pageSize = true ∧ isRowCount offset = true

instance (q : EntryQuery) (pageSize : ℕ) : DecidablePred (Accepts q pageSize) := fun _ =>
  inferInstanceAs (Decidable (_ ∧ _ ∧ _))

/-- The pages are all rows, each of them once, in strictly descending sequence. -/
def InFull (rows : List AuditLogEntry) (items : List AuditLogEntryRead) : Prop :=
  ∃ listed : List AuditLogEntry, listed.Perm rows ∧
    (listed.Pairwise fun e e' => e'.sequence < e.sequence) ∧ items = listed.map entryToRead

section

variable {ilike : String → String → Bool} {q : EntryQuery} {db : Db} {n pageSize : ℕ}

/-- A page is answered where the database takes its query, with a page of the sorted rows. -/
theorem entriesPage_succ (k : ℕ) :
    entriesPage ilike q db n pageSize (k + 1) =
      if Accepts q pageSize (k * pageSize) then
        some ((page (fromLargest AuditLogEntry.sequence (matching ilike q db.auditLog))
          pageSize k).map entryToRead, (matching ilike q db.auditLog).length)
      else none := by
  have hanswer : (listEntries ilike q (k + 1 : ℕ) pageSize).wp postgres (fun result _ _ _ =>
      result.toOption = if Accepts q pageSize (k * pageSize) then
        some ((page (fromLargest AuditLogEntry.sequence (matching ilike q db.auditLog))
          pageSize k).map entryToRead, (matching ilike q db.auditLog).length)
      else none) db db n := by
    apply (Request.wp_bind ..).mpr
    apply wp_found.mpr
    constructor
    · intro hnone
      have hrefused : ¬ Accepts q pageSize (k * pageSize) := by
        simp [Accepts, accepted, hnone]
      rw [if_neg hrefused]
      rfl
    intro filter hfilter
    apply (Request.wp_bind ..).mpr
    apply wp_ensure.mpr
    constructor
    · intro hunsendable
      have hrefused : ¬ Accepts q pageSize (k * pageSize) := by
        simp [Accepts, accepted, hfilter, hunsendable]
      rw [if_neg hrefused]
      rfl
    intro hsendable
    apply (Request.wp_bind ..).mpr
    rw [Request.wp_select]
    apply (Request.wp_bind ..).mpr
    apply wp_ensure.mpr
    rw [offset_succ]
    constructor
    · intro hcounts
      have hrefused : ¬ Accepts q pageSize (k * pageSize) := fun haccepts =>
        hcounts ⟨haccepts.2.2, haccepts.2.1⟩
      rw [if_neg hrefused]
      rfl
    intro hcounts
    apply (Request.wp_bind ..).mpr
    rw [Request.wp_select]
    apply Request.wp_return
    have haccepted : Accepts q pageSize (k * pageSize) := by
      refine ⟨?_, hcounts.2, hcounts.1⟩
      simp [accepted, hfilter, hsendable]
    rw [if_pos haccepted, matching, hfilter]
    simp only [Int.toNat_natCast, Except.toOption]
    rfl
  exact (Request.serial_sound hanswer).elim fun _ h => h

theorem flatten_pages {rows : List AuditLogEntry} (hsize : 0 < pageSize) :
    ((List.range (pageCount rows.length pageSize)).map fun k =>
      (page (fromLargest AuditLogEntry.sequence rows) pageSize k).map entryToRead).flatten =
        (fromLargest AuditLogEntry.sequence rows).map entryToRead := by
  have hlength : (fromLargest AuditLogEntry.sequence rows).length = rows.length :=
    fromLargest_perm.length_eq
  rw [← List.flatMap_def, ← List.map_flatMap, ← hlength, flatMap_pages hsize]

/-- The pages up to the first empty one, concatenated, are the rows that satisfy all conditions,
with their number as the total of each, exactly where the database takes the conditions, the page
size and the offset of the first empty page. -/
theorem entries_paged_iff (ilike : String → String → Bool) (q : EntryQuery) (db : Db)
    (n pageSize : ℕ) (hsize : 1 ≤ pageSize)
    (hunique : (db.auditLog.map AuditLogEntry.sequence).Nodup) :
    let rows := matching ilike q db.auditLog
    (∃ pages, Fetched (entriesPage ilike q db n pageSize) pageSize rows.length pages ∧
        InFull rows pages.flatten) ↔
      accepted q = true ∧ pageSize < 2 ^ 63 ∧
        pageCount rows.length pageSize * pageSize < 2 ^ 63 := by
  intro rows
  have hrows : (rows.map AuditLogEntry.sequence).Nodup := by
    have hsublist : rows.Sublist db.auditLog := by
      simp only [rows, matching]
      split
      · exact List.nil_sublist _
      · exact List.filter_sublist
    exact hunique.sublist (hsublist.map _)
  have hlength : ∀ _ : ℕ, (fromLargest AuditLogEntry.sequence rows).length = rows.length :=
    fun _ => fromLargest_perm.length_eq
  have hdown : ∀ a b, a ≤ b → Accepts q pageSize b → Accepts q pageSize a := by
    intro a b hle haccepts
    have hb := isRowCount_natCast.mp haccepts.2.2
    exact ⟨haccepts.1, haccepts.2.1, isRowCount_natCast.mpr (by omega)⟩
  rw [fetched_iff hsize hlength hdown entriesPage_succ, flatten_pages hsize]
  have hfull : InFull rows ((fromLargest AuditLogEntry.sequence rows).map entryToRead) :=
    ⟨_, fromLargest_perm, fromLargest_strict hrows, rfl⟩
  simp only [Accepts, isRowCount_natCast, and_iff_left hfull]

end

/-! ## A condition that the database refuses -/

theorem entries_paged_sample :
    let db : Db := { emptyDb with auditLog := alteredLog }
    let rows := matching (fun _ _ => true) {} db.auditLog
    1 ≤ 1 ∧ (db.auditLog.map AuditLogEntry.sequence).Nodup ∧
      ∃ pages, Fetched (entriesPage (fun _ _ => true) {} db 0 1) 1 rows.length pages ∧
        InFull rows pages.flatten := by
  intro db rows
  have hunique : (db.auditLog.map AuditLogEntry.sequence).Nodup := by decide
  have haccepted : accepted {} = true ∧ 1 < 2 ^ 63 ∧ pageCount rows.length 1 * 1 < 2 ^ 63 := by
    decide
  exact ⟨le_rfl, hunique,
    (entries_paged_iff (fun _ _ => true) {} db 0 1 le_rfl hunique).mpr haccepted⟩

/-- A search for a NUL character is answered on no page. -/
theorem nul_search_refused :
    ¬ ∀ (ilike : String → String → Bool) (q : EntryQuery) (db : Db) (n pageSize : ℕ),
      1 ≤ pageSize → (db.auditLog.map AuditLogEntry.sequence).Nodup →
        ∃ pages, Fetched (entriesPage ilike q db n pageSize) pageSize
            (matching ilike q db.auditLog).length pages ∧
          InFull (matching ilike q db.auditLog) pages.flatten := by
  intro h
  obtain ⟨pages, hfetched, -⟩ := h (fun _ _ => true) { search := some "\x00" } emptyDb 0 50
    (by decide) (by decide)
  have hends := hfetched.ends
  have hrefused : ∀ offset, ¬ Accepts { search := some "\x00" } 50 offset := by
    rintro offset ⟨haccepted, -⟩
    exact absurd haccepted (by decide)
  rw [entriesPage_succ, if_neg (hrefused _)] at hends
  cases hends

end NexusEngine.AuditLogPages
