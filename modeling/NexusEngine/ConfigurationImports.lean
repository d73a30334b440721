import NexusEngine.ConfigurationDocuments
import NexusEngine.RelatedLists

/-!
# Imports in parts

An import is one transaction. Each item sees the rows that the items before it have inserted, in
its own request or in an earlier one, so that a batch does what its parts do one after the other,
as long as every request is answered. Where a column rejects an item the whole batch is undone,
and of the parts only the one with the item.
-/

namespace NexusEngine.ConfigurationImports

open TransactionalRequests JsonDocuments StoredColumns KeyedTables ConfigurationTable Database
  AuditService ConfigurationService ConfigurationLifecycle ConfigurationDocuments RelatedLists
open AuditVerification (sha256Crypto)

/-! ## An import as a function of the table -/

/-- The response to two imports together. -/
def together (r r' : ConfigurationImportResponse) : ConfigurationImportResponse where
  imported := r.imported + r'.imported
  skipped := r.skipped + r'.skipped
  rows := r.rows ++ r'.rows

def emptyResponse : ConfigurationImportResponse := ⟨0, 0, []⟩

/-- The validation of an item. -/
def itemErrors (item : ConfigurationImportItem) : List String :=
  validatePayload item.payload item.sensitiveKeys

def skipped (item : ConfigurationImportItem) : ConfigurationImportResultRow :=
  ⟨item.name, none, "skipped", String.intercalate "; " (itemErrors item)⟩

def created (item : ConfigurationImportItem) (version : ℕ) : ConfigurationImportResultRow :=
  ⟨item.name, some version, "created", "created v" ++ natText version⟩

/-- The row of an item. -/
def itemDraft (crypto : AuditCrypto) (env : ConfigurationEnv) (createdBy : String) (k : ℕ)
    (t : Configurations) (item : ConfigurationImportItem) : Configuration :=
  draft crypto env k item.name (maxVersion t item.name + 1) item.payload item.sensitiveKeys
    item.description createdBy

/-- The table and the response that an import leaves, or nothing where a column rejects an
item. -/
def importTable (crypto : AuditCrypto) (env : ConfigurationEnv) (createdBy : String) :
    ℕ → Configurations → List ConfigurationImportItem →
      Option (Configurations × ConfigurationImportResponse)
  | _, t, [] => some (t, emptyResponse)
  | k, t, item :: items =>
    if itemErrors item ≠ [] then
      (importTable crypto env createdBy (k + 1) t items).map fun r =>
        (r.1, together ⟨0, 1, [skipped item]⟩ r.2)
    else
      (insertConfiguration t (itemDraft crypto env createdBy k t item)).bind fun t' =>
        (importTable crypto env createdBy (k + 1) t' items).map fun r =>
          (r.1, together ⟨1, 0, [created item (maxVersion t item.name + 1)]⟩ r.2)

theorem together_empty (r : ConfigurationImportResponse) : together emptyResponse r = r := by
  simp [together, emptyResponse]

theorem together_assoc (r r' r'' : ConfigurationImportResponse) :
    together (together r r') r'' = together r (together r' r'') := by
  simp [together, Nat.add_assoc]

section

variable {crypto : AuditCrypto} {createdBy : String}

theorem importTable_skipped {env : ConfigurationEnv} {k : ℕ} {t : Configurations}
    {item : ConfigurationImportItem} {items : List ConfigurationImportItem}
    (h : itemErrors item ≠ []) :
    importTable crypto env createdBy k t (item :: items) =
      (importTable crypto env createdBy (k + 1) t items).map fun r =>
        (r.1, together ⟨0, 1, [skipped item]⟩ r.2) := by
  rw [importTable, if_pos h]

theorem importTable_created {env : ConfigurationEnv} {k : ℕ} {t : Configurations}
    {item : ConfigurationImportItem} {items : List ConfigurationImportItem}
    (h : itemErrors item = []) :
    importTable crypto env createdBy k t (item :: items) =
      (insertConfiguration t (itemDraft crypto env createdBy k t item)).bind fun t' =>
        (importTable crypto env createdBy (k + 1) t' items).map fun r =>
          (r.1, together ⟨1, 0, [created item (maxVersion t item.name + 1)]⟩ r.2) := by
  rw [importTable, if_neg (not_not_intro h)]

/-- A batch is imported by importing its first part and then the others. -/
theorem importTable_append (env : ConfigurationEnv) (k : ℕ) (t : Configurations)
    (xs ys : List ConfigurationImportItem) :
    importTable crypto env createdBy k t (xs ++ ys) =
      (importTable crypto env createdBy k t xs).bind fun r =>
        (importTable crypto env createdBy (k + xs.length) r.1 ys).map fun r' =>
          (r'.1, together r.2 r'.2) := by
  induction xs generalizing k t with
  | nil =>
    simp only [List.nil_append, importTable, Option.bind_some, List.length_nil, Nat.add_zero,
      together_empty]
    exact Option.map_id'.symm
  | cons item xs ih =>
    have hlength : k + 1 + xs.length = k + (item :: xs).length := by
      rw [List.length_cons]
      omega
    by_cases herrors : itemErrors item = []
    · rw [List.cons_append, importTable_created herrors, importTable_created herrors]
      cases insertConfiguration t (itemDraft crypto env createdBy k t item) with
      | none => rfl
      | some t' =>
        rw [Option.bind_some, Option.bind_some, ih, hlength]
        simp [Option.map_bind, Option.bind_map, Function.comp_def, together_assoc]
    · rw [List.cons_append, importTable_skipped herrors, importTable_skipped herrors, ih, hlength]
      simp [Option.map_bind, Option.bind_map, Function.comp_def, together_assoc]

/-- The loop leaves what the function does. -/
theorem importItems_result (env : ConfigurationEnv) (items : List ConfigurationImportItem)
    {post : Except ServiceError ConfigurationImportResponse → Db → Db → ℕ → Prop}
    {durable work : Db} {k n : ℕ}
    (rejected : importTable crypto env createdBy k work.configurations items = none →
      ∀ w m, post (.error .rejected) durable w m)
    (imported : ∀ t response,
      importTable crypto env createdBy k work.configurations items = some (t, response) →
      ∀ m, post (.ok response) durable { work with configurations := t } m) :
    (importItems crypto env createdBy k items).wp postgres post durable work n := by
  induction items generalizing work k n post with
  | nil => exact Request.wp_return (imported work.configurations emptyResponse rfl n)
  | cons item items ih =>
    rw [importItems, Request.wp_ite]
    constructor
    · intro herrors
      apply (Request.wp_bind ..).mpr
      apply ih
      · intro hnone w m
        apply rejected
        rw [importTable_skipped herrors, hnone, Option.map_none]
      · intro t response hsome m
        have hanswer := imported t (together ⟨0, 1, [skipped item]⟩ response) (by
          rw [importTable_skipped herrors, hsome, Option.map_some]) m
        rw [together, Nat.zero_add, Nat.add_comm] at hanswer
        exact Request.wp_return hanswer
    · intro hnot
      have herrors : itemErrors item = [] := not_not.mp hnot
      apply (Request.wp_bind ..).mpr
      rw [nextVersion, Request.wp_select]
      apply (Request.wp_bind ..).mpr
      rw [Request.wp_send, StatementSemantics.applyAll_singleton]
      constructor
      · intro hnone
        have hinsert : insertConfiguration work.configurations
            (itemDraft crypto env createdBy k work.configurations item) = none :=
          Option.map_eq_none_iff.mp hnone
        apply rejected
        rw [importTable_created herrors, hinsert, Option.bind_none]
      · intro mid hmid
        obtain ⟨t', hinsert, rfl⟩ := apply_configuration.mp hmid
        have hinsert' : insertConfiguration work.configurations
            (itemDraft crypto env createdBy k work.configurations item) = some t' := hinsert
        apply (Request.wp_bind ..).mpr
        apply ih
        · intro hnone w m
          apply rejected
          rw [importTable_created herrors, hinsert', Option.bind_some, hnone, Option.map_none]
        · intro t response hsome m
          have hanswer := imported t (together ⟨1, 0, [created item
            (maxVersion work.configurations item.name + 1)]⟩ response) (by
              rw [importTable_created herrors, hinsert', Option.bind_some, hsome,
                Option.map_some]) m
          rw [together, Nat.zero_add, Nat.add_comm] at hanswer
          exact Request.wp_return hanswer

variable (crypto createdBy) in
/-- What a request leaves. A request that is not answered leaves the table. -/
theorem importConfigurations_result (env : ConfigurationEnv) (req : ConfigurationImportRequest)
    (s : Store Db) :
    match importTable crypto env createdBy 0 s.db.configurations req.items with
    | none =>
      ((importConfigurations crypto env req createdBy).serial postgres s.db s.db
        s.sequence).result = .error .rejected ∧
      ((importConfigurations crypto env req createdBy).serial postgres s.db s.db
        s.sequence).db = s.db
    | some (t, response) =>
      ((importConfigurations crypto env req createdBy).serial postgres s.db s.db
        s.sequence).result = .ok response ∧
      ((importConfigurations crypto env req createdBy).serial postgres s.db s.db
        s.sequence).db = { s.db with configurations := t } := by
  have hwp : (importConfigurations crypto env req createdBy).wp postgres
      (fun result durable _ _ =>
        match importTable crypto env createdBy 0 s.db.configurations req.items with
        | none => result = .error .rejected ∧ durable = s.db
        | some (t, response) =>
          result = .ok response ∧ durable = { s.db with configurations := t })
      s.db s.db s.sequence := by
    apply (Request.wp_bind ..).mpr
    apply importItems_result
    · intro hnone w m
      rw [hnone]
      exact ⟨rfl, rfl⟩
    · intro t response hsome m
      apply Request.wp_commitTransaction_bind
      apply Request.wp_return
      rw [hsome]
      exact ⟨rfl, rfl⟩
  exact (Request.serial_sound hwp).elim fun _ h => h

end

/-! ## The same rows -/

/-- A row but for what is drawn for it: the identifier and the times of the insertion. -/
def document (c : Configuration) : Configuration := { c with id := 0, createdAt := 0, updatedAt := 0 }

/-- The tables hold the same documents in the same order. -/
def SameDocuments (t t' : Configurations) : Prop := t.rows.map document = t'.rows.map document

section

variable {crypto : AuditCrypto} {createdBy : String} {t t' : Configurations}

theorem SameDocuments.maxVersion (h : SameDocuments t t') (name : String) :
    maxVersion t name = maxVersion t' name := by
  have hversions : ∀ rows : List Configuration,
      (rows.filter fun c => c.name = name).map Configuration.version =
        ((rows.map document).filter fun c => c.name = name).map Configuration.version := by
    intro rows
    rw [List.filter_map, List.map_map]
    rfl
  have hsame : t.rows.map document = t'.rows.map document := h
  rw [ConfigurationService.maxVersion, ConfigurationService.maxVersion, hversions t.rows,
    hversions t'.rows, hsame]

/-- No row has the identifiers that are drawn for the items, and these are distinct. -/
def FreshIds (t : Configurations) (ids : List Uuid) : Prop :=
  (t.rows.map Configuration.id ++ ids).Nodup

/-- The identifiers that are drawn for `n` items, from the `k`-th on. -/
def drawn (env : ConfigurationEnv) (k n : ℕ) : List Uuid := (List.range' k n).map env.uuid4

theorem FreshIds.find? {id : Uuid} {ids : List Uuid} (h : FreshIds t (id :: ids)) :
    t.find? id = none := by
  apply Table.find?_eq_none.mpr
  intro c hc heq
  have hnodup := List.nodup_append.mp h
  exact hnodup.2.2 c.id (List.mem_map_of_mem hc) id List.mem_cons_self heq

/-- Where the tables hold the same documents an insert of the same document does the same. -/
theorem insertConfiguration_same {c c' : Configuration} (h : SameDocuments t t')
    (hsame : document c = document c') (hnew : t.find? c.id = none)
    (hnew' : t'.find? c'.id = none) :
    Option.Rel SameDocuments (insertConfiguration t c) (insertConfiguration t' c') := by
  obtain ⟨id, createdAt, updatedAt, rfl⟩ : ∃ id createdAt updatedAt,
      c' = { c with id := id, createdAt := createdAt, updatedAt := updatedAt } := by
    refine ⟨c'.id, c'.createdAt, c'.updatedAt, ?_⟩
    cases c
    cases c'
    simp only [document, Configuration.mk.injEq] at hsame ⊢
    tauto
  have hrows : t.rows.map document = t'.rows.map document := h
  simp only [insertConfiguration, Option.bind_eq_bind]
  apply rel_bind_same
  intro name _
  apply rel_bind_same
  intro _ _
  apply rel_bind_same
  intro checksum _
  apply rel_bind_same
  intro description _
  apply rel_bind_same
  intro storedBy _
  have hany : ∀ rows : List Configuration,
      (rows.any fun r => r.name == name && r.version == c.version) =
        (rows.map document).any fun r => r.name == name && r.version == c.version := by
    intro rows
    rw [List.any_map]
    rfl
  have hused : (t.rows.any fun r => r.name == name && r.version == c.version) =
      t'.rows.any fun r => r.name == name && r.version == c.version := by
    rw [hany t.rows, hany t'.rows, hrows]
  rw [hused]
  split
  · exact .none
  · split
    · exact .none
    · obtain ⟨u, hu⟩ := Table.insert_isSome (r := { c with
        name := name, checksum := checksum, description := description, createdBy := storedBy })
        hnew
      obtain ⟨u', hu'⟩ := Table.insert_isSome (r := { c with
        id := id, createdAt := createdAt, updatedAt := updatedAt
        name := name, checksum := checksum, description := description, createdBy := storedBy })
        hnew'
      rw [hu, hu']
      apply Option.Rel.some
      rw [SameDocuments, (Table.insert_eq_some.mp hu).2, (Table.insert_eq_some.mp hu').2,
        List.map_append, List.map_append, hrows]
      rfl

/-- An insert keeps the rows and adds one with the identifier of the new one. -/
theorem insertConfiguration_id {c : Configuration} (h : insertConfiguration t c = some t') :
    ∃ row, t'.rows = t.rows ++ [row] ∧ row.id = c.id := by
  obtain ⟨row, hstored, hinsert⟩ := insertConfiguration_eq_some h
  refine ⟨row, (Table.insert_eq_some.mp hinsert).2, ?_⟩
  rw [hstored.rest]

theorem drawn_succ (env : ConfigurationEnv) (k n : ℕ) :
    drawn env k (n + 1) = env.uuid4 k :: drawn env (k + 1) n := by
  rw [drawn, List.range'_succ, List.map_cons]
  rfl

theorem FreshIds.inserted {c : Configuration} {ids : List Uuid} (h : FreshIds t (c.id :: ids))
    (hinsert : insertConfiguration t c = some t') : FreshIds t' ids := by
  obtain ⟨row, hrows, hid⟩ := insertConfiguration_id hinsert
  rw [FreshIds, List.append_cons] at h
  rw [FreshIds, hrows, List.map_append, List.map_singleton, hid]
  exact h

theorem FreshIds.tail {id : Uuid} {ids : List Uuid} (h : FreshIds t (id :: ids)) :
    FreshIds t ids :=
  List.Nodup.sublist (List.Sublist.append_left (List.sublist_cons_self id ids) _) h

/-- Imports of the same items into tables with the same documents do the same, whatever is drawn
for them. -/
theorem importTable_same {env env' : ConfigurationEnv} {k k' : ℕ}
    {items : List ConfigurationImportItem} (h : SameDocuments t t')
    (hfresh : FreshIds t (drawn env k items.length))
    (hfresh' : FreshIds t' (drawn env' k' items.length)) :
    Option.Rel (fun r r' => SameDocuments r.1 r'.1 ∧ r.2 = r'.2)
      (importTable crypto env createdBy k t items)
      (importTable crypto env' createdBy k' t' items) := by
  induction items generalizing t t' k k' with
  | nil => exact .some ⟨h, rfl⟩
  | cons item items ih =>
    rw [List.length_cons, drawn_succ] at hfresh hfresh'
    by_cases herrors : itemErrors item = []
    · rw [importTable_created herrors, importTable_created herrors]
      have hversion := h.maxVersion item.name
      have hdrafts : document (itemDraft crypto env createdBy k t item) =
          document (itemDraft crypto env' createdBy k' t' item) := by
        rw [itemDraft, itemDraft, hversion]
        rfl
      apply rel_bind (insertConfiguration_same h hdrafts hfresh.find? hfresh'.find?)
      intro u u' hu hu' hsame
      apply rel_map (ih hsame (hfresh.inserted hu) (hfresh'.inserted hu'))
      intro r r' hr
      rw [hversion, hr.2]
      exact ⟨hr.1, rfl⟩
    · rw [importTable_skipped herrors, importTable_skipped herrors]
      apply rel_map (ih h hfresh.tail hfresh'.tail)
      intro r r' hr
      rw [hr.2]
      exact ⟨hr.1, rfl⟩

theorem drawn_add (env : ConfigurationEnv) (k m n : ℕ) :
    drawn env k (m + n) = drawn env k m ++ drawn env (k + m) n := by
  rw [drawn, drawn, drawn, ← List.map_append, List.range'_append_1]

/-- What an import has not used of the identifiers stays new. -/
theorem importTable_fresh {env : ConfigurationEnv} {k : ℕ} {items : List ConfigurationImportItem}
    {response : ConfigurationImportResponse} {ids : List Uuid}
    (hfresh : FreshIds t (drawn env k items.length ++ ids))
    (himport : importTable crypto env createdBy k t items = some (t', response)) :
    FreshIds t' ids := by
  induction items generalizing t k response with
  | nil =>
    rw [importTable, Option.some.injEq, Prod.mk.injEq] at himport
    rw [← himport.1]
    exact hfresh
  | cons item items ih =>
    rw [List.length_cons, drawn_succ, List.cons_append] at hfresh
    by_cases herrors : itemErrors item = []
    · rw [importTable_created herrors] at himport
      obtain ⟨u, hinsert, hmap⟩ := Option.bind_eq_some_iff.mp himport
      obtain ⟨r, hr, heq⟩ := Option.map_eq_some_iff.mp hmap
      cases heq
      exact ih (FreshIds.inserted hfresh hinsert) hr
    · rw [importTable_skipped herrors] at himport
      obtain ⟨r, hr, heq⟩ := Option.map_eq_some_iff.mp himport
      cases heq
      exact ih hfresh.tail hr

/-! ## What an import adds -/

/-- The highest version of a name, deleted rows counted. -/
def highestVersion (rows : List Configuration) (name : String) : ℕ :=
  ((rows.filter fun c => c.name = name).map Configuration.version).foldr max 0

/-- The row that is stored of an item, but for its version and for what is drawn for it. -/
structure ImportedAs (crypto : AuditCrypto) (createdBy : String) (item : ConfigurationImportItem)
    (c : Configuration) : Prop where
  name : c.name = item.name
  payload : c.payload = item.payload
  sensitiveKeys : c.sensitiveKeys = item.sensitiveKeys
  checksum : varchar 64 (payloadChecksum crypto item.payload) = some c.checksum
  description : c.description = item.description
  createdBy : varchar 120 createdBy = some c.createdBy
  status : c.status = .draft
  times : c.activatedAt = none ∧ c.archivedAt = none ∧ c.deletedAt = none

/-- The line of the response about an item. -/
def Reports (item : ConfigurationImportItem) (row : ConfigurationImportResultRow) : Prop :=
  if itemErrors item = [] then ∃ version, row = created item version else row = skipped item

/-- The rows `new` that an import of the items adds after the rows `before`, and its response. -/
structure Imported (crypto : AuditCrypto) (createdBy : String) (before : List Configuration)
    (items : List ConfigurationImportItem) (new : List Configuration)
    (response : ConfigurationImportResponse) : Prop where
  rows : List.Forall₂ (ImportedAs crypto createdBy)
    (items.filter fun item => itemErrors item = []) new
  numbered : ∀ earlier c later, new = earlier ++ c :: later →
    c.version = highestVersion (before ++ earlier) c.name + 1
  reports : List.Forall₂ Reports items response.rows
  versions : response.rows.filterMap (·.version) = new.map Configuration.version
  imported : response.imported = new.length
  total : response.imported + response.skipped = items.length

theorem insertConfiguration_item {env : ConfigurationEnv} {k : ℕ} {item : ConfigurationImportItem}
    (h : insertConfiguration t (itemDraft crypto env createdBy k t item) = some t') :
    ∃ c, t'.rows = t.rows ++ [c] ∧ ImportedAs crypto createdBy item c ∧
      c.version = highestVersion t.rows c.name + 1 := by
  simp only [insertConfiguration, Option.bind_eq_bind, Option.bind_eq_some_iff,
    Option.ite_none_left_eq_some] at h
  obtain ⟨name, hname, _, -, checksum, hchecksum, description, hdescription, storedBy, hby, -, -,
    hinsert⟩ := h
  have hsame : name = item.name := varchar_of_length_le hname item.name_max
  have hfits : nullable (varchar 255) item.description = some item.description :=
    nullable_of_length_le (Option.isSome_of_eq_some hdescription) item.description_max
  have hdescribed : description = item.description :=
    (Option.some.inj (hfits.symm.trans hdescription)).symm
  refine ⟨_, (Table.insert_eq_some.mp hinsert).2, ?_, ?_⟩
  · exact {
      name := hsame
      payload := rfl
      sensitiveKeys := rfl
      checksum := hchecksum
      description := hdescribed
      createdBy := hby
      status := rfl
      times := ⟨rfl, rfl, rfl⟩ }
  · rw [hsame]
    rfl

theorem Imported.nil {before : List Configuration} :
    Imported crypto createdBy before [] [] emptyResponse where
  rows := .nil
  numbered := by simp
  reports := .nil
  versions := rfl
  imported := rfl
  total := rfl

section

variable {before new : List Configuration} {item : ConfigurationImportItem}
  {items : List ConfigurationImportItem} {response : ConfigurationImportResponse}

theorem Imported.skip (h : Imported crypto createdBy before items new response)
    (herrors : itemErrors item ≠ []) :
    Imported crypto createdBy before (item :: items) new
      (together ⟨0, 1, [skipped item]⟩ response) where
  rows := by
    rw [List.filter_cons_of_neg (by simpa using herrors)]
    exact h.rows
  numbered := h.numbered
  reports := .cons (by rw [Reports, if_neg herrors]) h.reports
  versions := h.versions
  imported := by simpa [together] using h.imported
  total := by
    have htotal := h.total
    simp only [together, List.length_cons]
    omega

theorem Imported.create {c : Configuration}
    (h : Imported crypto createdBy (before ++ [c]) items new response)
    (herrors : itemErrors item = []) (hrow : ImportedAs crypto createdBy item c)
    (hversion : c.version = highestVersion before c.name + 1) :
    Imported crypto createdBy before (item :: items) (c :: new)
      (together ⟨1, 0, [created item (highestVersion before item.name + 1)]⟩ response) where
  rows := by
    rw [List.filter_cons_of_pos (by simpa using herrors)]
    exact .cons hrow h.rows
  numbered := by
    intro earlier d later heq
    cases earlier with
    | nil =>
      cases heq
      simpa using hversion
    | cons e earlier =>
      rw [List.cons_append, List.cons.injEq] at heq
      have hlater := h.numbered earlier d later heq.2
      rw [heq.1] at hlater
      simpa using hlater
  reports := .cons (by rw [Reports, if_pos herrors]; exact ⟨_, rfl⟩) h.reports
  versions := by
    have hhead : highestVersion before item.name + 1 = c.version := by
      rw [hversion, hrow.name]
    simp only [together, List.singleton_append, List.map_cons, ← h.versions, ← hhead]
    rfl
  imported := by
    have himported := h.imported
    simp only [together, List.length_cons]
    omega
  total := by
    have htotal := h.total
    simp only [together, List.length_cons]
    omega

end

/-- An import keeps the rows of the table and adds one for each valid item. -/
theorem importTable_imported {env : ConfigurationEnv} {k : ℕ}
    {items : List ConfigurationImportItem} {response : ConfigurationImportResponse}
    (h : importTable crypto env createdBy k t items = some (t', response)) :
    ∃ new, t'.rows = t.rows ++ new ∧ Imported crypto createdBy t.rows items new response := by
  induction items generalizing t k response with
  | nil =>
    rw [importTable, Option.some.injEq, Prod.mk.injEq] at h
    rw [← h.1, ← h.2]
    exact ⟨[], (List.append_nil _).symm, .nil⟩
  | cons item items ih =>
    by_cases herrors : itemErrors item = []
    · rw [importTable_created herrors] at h
      obtain ⟨u, hinsert, hmap⟩ := Option.bind_eq_some_iff.mp h
      obtain ⟨⟨v, rest⟩, hrest, heq⟩ := Option.map_eq_some_iff.mp hmap
      cases heq
      obtain ⟨c, hrows, hrow, hversion⟩ := insertConfiguration_item hinsert
      obtain ⟨new, hnew, himported⟩ := ih hrest
      rw [hrows] at hnew himported
      refine ⟨c :: new, ?_, himported.create herrors hrow hversion⟩
      rw [hnew, List.append_assoc, List.singleton_append]
    · rw [importTable_skipped herrors] at h
      obtain ⟨⟨v, rest⟩, hrest, heq⟩ := Option.map_eq_some_iff.mp h
      cases heq
      obtain ⟨new, hnew, himported⟩ := ih hrest
      exact ⟨new, hnew, himported.skip herrors⟩

/-! ## A batch and its parts -/

/-- What the requests leave and answer one after the other, as long as each is answered. -/
def importInTurn (crypto : AuditCrypto) (createdBy : String) :
    Store Db → List (ConfigurationEnv × ConfigurationImportRequest) →
      Option (Store Db × ConfigurationImportResponse)
  | s, [] => some (s, emptyResponse)
  | s, (env, req) :: parts =>
    match ((importConfigurations crypto env req createdBy).serial postgres s.db s.db
      s.sequence).result with
    | .error _ => none
    | .ok response =>
      (importInTurn crypto createdBy
        (s.exec postgres (importConfigurations crypto env req createdBy)) parts).map fun r =>
          (r.1, together response r.2)

theorem importInTurn_cons (env : ConfigurationEnv) (req : ConfigurationImportRequest)
    (parts : List (ConfigurationEnv × ConfigurationImportRequest)) (s : Store Db) :
    importInTurn crypto createdBy s ((env, req) :: parts) =
      (importTable crypto env createdBy 0 s.db.configurations req.items).bind fun r =>
        (importInTurn crypto createdBy
          (s.exec postgres (importConfigurations crypto env req createdBy)) parts).map fun r' =>
            (r'.1, together r.2 r'.2) := by
  have hresult := importConfigurations_result crypto createdBy env req s
  cases himport : importTable crypto env createdBy 0 s.db.configurations req.items with
  | none =>
    rw [himport] at hresult
    rw [importInTurn, hresult.1]
    rfl
  | some r =>
    rw [himport] at hresult
    rw [importInTurn, hresult.1]
    rfl

/-- The import of a batch does what the requests with its parts do in turn. -/
theorem importInTurn_same {env : ConfigurationEnv} {k : ℕ} {s : Store Db}
    {parts : List (ConfigurationEnv × ConfigurationImportRequest)}
    (h : SameDocuments t s.db.configurations)
    (hfresh : FreshIds t (drawn env k (parts.flatMap fun p => p.2.items).length))
    (hparts : FreshIds s.db.configurations
      (parts.flatMap fun p => drawn p.1 0 p.2.items.length)) :
    Option.Rel (fun r r' => r.2 = r'.2 ∧ SameDocuments r.1 r'.1.db.configurations ∧
        r'.1.db = { s.db with configurations := r'.1.db.configurations })
      (importTable crypto env createdBy k t (parts.flatMap fun p => p.2.items))
      (importInTurn crypto createdBy s parts) := by
  induction parts generalizing t k s with
  | nil => exact .some ⟨rfl, h, rfl⟩
  | cons part parts ih =>
    obtain ⟨env', req⟩ := part
    rw [List.flatMap_cons] at hfresh hparts
    rw [List.length_append, drawn_add] at hfresh
    have hfirst : FreshIds t (drawn env k req.items.length) :=
      List.Nodup.sublist (List.Sublist.append_left (List.sublist_append_left _ _) _) hfresh
    have hfirst' : FreshIds s.db.configurations (drawn env' 0 req.items.length) :=
      List.Nodup.sublist (List.Sublist.append_left (List.sublist_append_left _ _) _) hparts
    rw [List.flatMap_cons, importTable_append, importInTurn_cons]
    apply rel_bind (importTable_same h hfirst hfirst')
    intro r r' hr hr' hsame
    have hdb : (s.exec postgres (importConfigurations crypto env' req createdBy)).db =
        { s.db with configurations := r'.1 } := by
      have hresult := importConfigurations_result crypto createdBy env' req s
      rw [hr'] at hresult
      exact hresult.2
    have hrest : FreshIds r.1 (drawn env (k + req.items.length)
        (parts.flatMap fun p => p.2.items).length) := importTable_fresh hfresh hr
    have hrest' : FreshIds r'.1 (parts.flatMap fun p => drawn p.1 0 p.2.items.length) :=
      importTable_fresh hparts hr'
    have hlater := ih (s := s.exec postgres (importConfigurations crypto env' req createdBy))
      (by rw [hdb]; exact hsame.1) hrest (by rw [hdb]; exact hrest')
    apply rel_map hlater
    intro q q' hq
    refine ⟨?_, hq.2.1, ?_⟩
    · rw [hsame.2, hq.1]
    · rw [hq.2.2, hdb]

/-- A batch that is answered leaves the same table, but for what is drawn, and answers the same
rows as the requests with its parts, one after the other. It is answered exactly where each part
is, and otherwise it leaves the database. An answered batch keeps every row and adds one for each
valid item. -/
theorem import_in_parts (crypto : AuditCrypto) (env : ConfigurationEnv) (createdBy : String)
    (s : Store Db) (req : ConfigurationImportRequest)
    (parts : List (ConfigurationEnv × ConfigurationImportRequest))
    (hitems : req.items = parts.flatMap fun p => p.2.items)
    (hfresh : FreshIds s.db.configurations (drawn env 0 req.items.length))
    (hparts : FreshIds s.db.configurations
      (parts.flatMap fun p => drawn p.1 0 p.2.items.length)) :
    let batch := (importConfigurations crypto env req createdBy).serial postgres s.db s.db s.sequence
    match importInTurn crypto createdBy s parts with
    | none => batch.result = .error .rejected ∧ batch.db = s.db
    | some (s', response) =>
      batch.result = .ok response ∧
      SameDocuments batch.db.configurations s'.db.configurations ∧
      batch.db = { s'.db with configurations := batch.db.configurations } ∧
      ∃ new, batch.db.configurations.rows = s.db.configurations.rows ++ new ∧
        Imported crypto createdBy s.db.configurations.rows req.items new response := by
  have hbatch := importConfigurations_result crypto createdBy env req s
  have hrel : Option.Rel (fun r r' => r.2 = r'.2 ∧ SameDocuments r.1 r'.1.db.configurations ∧
        r'.1.db = { s.db with configurations := r'.1.db.configurations })
      (importTable crypto env createdBy 0 s.db.configurations req.items)
      (importInTurn crypto createdBy s parts) := by
    rw [hitems] at hfresh ⊢
    exact importInTurn_same rfl hfresh hparts
  intro batch
  cases himport : importTable crypto env createdBy 0 s.db.configurations req.items with
  | none =>
    rw [himport] at hbatch hrel
    cases hturn : importInTurn crypto createdBy s parts with
    | none => exact hbatch
    | some r =>
      rw [hturn] at hrel
      nomatch hrel
  | some r =>
    rw [himport] at hbatch hrel
    cases hturn : importInTurn crypto createdBy s parts with
    | none =>
      rw [hturn] at hrel
      nomatch hrel
    | some r' =>
      rw [hturn] at hrel
      cases hrel with
      | some hsame =>
        obtain ⟨new, hnew, himported⟩ := importTable_imported himport
        have hdb : batch.db = { s.db with configurations := r.1 } := hbatch.2
        refine ⟨hsame.1 ▸ hbatch.1, ?_, ?_, new, ?_, hsame.1 ▸ himported⟩
        · rw [hdb]
          exact hsame.2.1
        · rw [hdb, hsame.2.2]
        · rw [hdb]
          exact hnew

end

def sampleItem (payload : List (String × Json)) : ConfigurationImportItem :=
  { sampleDocument "limits" "limit" limits_length with payload := payload }

/-- Two items of one name and an invalid one between them. -/
def sampleBatch : ConfigurationImportRequest where
  items := [sampleItem [("limit", .int 1)], sampleItem [], sampleItem [("limit", .int 2)]]
  items_min := by decide
  items_max := by decide

def sampleParts : List (ConfigurationEnv × ConfigurationImportRequest) :=
  [(sampleConfigurationEnv 1, ⟨[sampleItem [("limit", .int 1)], sampleItem []], by decide,
      by decide⟩),
    (sampleConfigurationEnv 2, ⟨[sampleItem [("limit", .int 2)]], by decide, by decide⟩)]

theorem import_in_parts_sample :
    ∃ s' response,
      importInTurn sha256Crypto "admin@example.com" ⟨emptyDb, 1⟩ sampleParts =
        some (s', response) ∧
      ((importConfigurations sha256Crypto (sampleConfigurationEnv 3) sampleBatch
        "admin@example.com").serial postgres emptyDb emptyDb 1).result = .ok response ∧
      SameDocuments ((importConfigurations sha256Crypto (sampleConfigurationEnv 3) sampleBatch
        "admin@example.com").serial postgres emptyDb emptyDb 1).db.configurations
        s'.db.configurations := by
  have hanswered : (importInTurn sha256Crypto "admin@example.com" ⟨emptyDb, 1⟩
      sampleParts).isSome := by
    decide +kernel
  have hfresh : FreshIds emptyDb.configurations
      (drawn (sampleConfigurationEnv 3) 0 sampleBatch.items.length) := by
    rw [FreshIds]
    decide
  have hparts : FreshIds emptyDb.configurations
      (sampleParts.flatMap fun p => drawn p.1 0 p.2.items.length) := by
    rw [FreshIds]
    decide
  have h := import_in_parts sha256Crypto (sampleConfigurationEnv 3) "admin@example.com"
    ⟨emptyDb, 1⟩ sampleBatch sampleParts rfl hfresh hparts
  obtain ⟨⟨s', response⟩, hturn⟩ := Option.isSome_iff_exists.mp hanswered
  rw [hturn] at h
  exact ⟨s', response, hturn, h.1, h.2.1⟩

/-- An item with a value that the payload column rejects. -/
def rejectedItems : ConfigurationImportRequest :=
  ⟨[sampleItem [("limit", .nonfinite .nan)]], by decide, by decide⟩

def acceptedItems : ConfigurationImportRequest :=
  ⟨[sampleItem [("limit", .int 1)]], by decide, by decide⟩

def rejectedBatch : ConfigurationImportRequest :=
  ⟨acceptedItems.items ++ rejectedItems.items, by decide, by decide⟩

/-- In one request neither item is stored, in two requests the first is. -/
theorem rejected_batch_undone :
    ¬ SameDocuments
      ((⟨emptyDb, 1⟩ : Store Db).exec postgres (importConfigurations sha256Crypto
        (sampleConfigurationEnv 1) rejectedBatch "admin@example.com")).db.configurations
      (((⟨emptyDb, 1⟩ : Store Db).exec postgres (importConfigurations sha256Crypto
        (sampleConfigurationEnv 1) acceptedItems "admin@example.com")).exec postgres
        (importConfigurations sha256Crypto (sampleConfigurationEnv 2) rejectedItems
          "admin@example.com")).db.configurations := by
  rw [SameDocuments]
  decide +kernel

end NexusEngine.ConfigurationImports
