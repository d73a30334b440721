import NexusEngine.AssessmentScores
import NexusEngine.Dictionaries

/-!
# The coverage of the control domains

The overview has a row for each domain that some framework maps, in the order of the domains. Two
constraints keep the loops from overwriting what they have filled in: a code names one framework,
and a framework maps a domain once. So the rows show every mapping once, and nothing else.
-/

namespace NexusEngine.ControlCoverage

open PythonText NestedDictionaries ComplianceService AssessmentScores

/-! ## The dictionaries -/

/-- The mappings of a framework, each with the code under which it is filled in. -/
def codedMappings (f : LoadedFramework) : List (String × ControlMapping) :=
  f.controlMappings.map fun m => (f.framework.code.value, m)

section

variable (byDomain : List (String × List (String × ControlMapping)))
  (descriptions : List (String × String)) (as : List (String × ControlMapping))

/-- The mappings, filled in by domain and code. -/
def regrouped : List (String × List (String × ControlMapping)) :=
  regroup (fun a => a.2.controlDomain) Prod.fst Prod.snd byDomain as

/-- The descriptions, filled in by domain. -/
def described : List (String × String) :=
  as.foldl (fun d a => dictSet d a.2.controlDomain a.2.controlDescription) descriptions

end

section

variable {byDomain : List (String × List (String × ControlMapping))}
  {descriptions : List (String × String)} {as : List (String × ControlMapping)}

theorem foldl_add (tables : DomainTables) (as : List (String × ControlMapping)) :
    as.foldl (fun tables a => tables.add a.1 a.2) tables =
      ⟨regrouped tables.byDomain as, described tables.descriptions as⟩ := by
  induction as generalizing tables with
  | nil => rfl
  | cons a as ih => exact ih (tables.add a.1 a.2)

/-- The loops fill the two dictionaries independently of each other. -/
theorem domainTables_eq (frameworks : List LoadedFramework) :
    domainTables frameworks = ⟨regrouped [] (frameworks.flatMap codedMappings),
      described [] (frameworks.flatMap codedMappings)⟩ := by
  have hloop := foldl_add ⟨[], []⟩ (frameworks.flatMap codedMappings)
  rw [List.foldl_flatMap] at hloop
  simp only [codedMappings, List.foldl_map] at hloop
  exact hloop

/-- Every domain has a description. -/
theorem keys_described (h : descriptions.map Prod.fst = byDomain.map Prod.fst) :
    (described descriptions as).map Prod.fst = (regrouped byDomain as).map Prod.fst := by
  induction as generalizing descriptions byDomain with
  | nil => exact h
  | cons a as ih =>
    apply ih
    rw [keys_dictSet, keys_setIn, h]

/-- The description of a domain is that of one of its mappings. -/
theorem mem_described {e : String × String} (h : e ∈ described descriptions as) :
    e ∈ descriptions ∨ ∃ a ∈ as, e = (a.2.controlDomain, a.2.controlDescription) := by
  induction as generalizing descriptions with
  | nil => exact .inl h
  | cons a as ih =>
    rcases ih h with he | ⟨b, hb, rfl⟩
    · rcases mem_dictSet he with he | rfl
      · exact .inl he
      · exact .inr ⟨a, List.mem_cons_self, rfl⟩
    · exact .inr ⟨b, List.mem_cons_of_mem _ hb, rfl⟩

end

/-! ## The constraints -/

theorem value_injective : Function.Injective FrameworkCode.value := by
  intro a b h
  cases a <;> cases b <;> first | rfl | simp [FrameworkCode.value] at h

/-- Under the constraints no domain has two mappings under one code. -/
theorem nodup_pairs {frameworks : List LoadedFramework}
    (hcodes : (frameworks.map fun f => f.framework.code).Nodup)
    (hdomains : ∀ f ∈ frameworks, (f.controlMappings.map ControlMapping.controlDomain).Nodup) :
    ((frameworks.flatMap codedMappings).map fun a => (a.2.controlDomain, a.1)).Nodup := by
  rw [List.map_flatMap, List.nodup_flatMap]
  constructor
  · intro f hf
    have hpairs := (hdomains f hf).map (f := fun domain => (domain, f.framework.code.value))
      fun _ _ h => (Prod.mk.inj h).1
    simpa [codedMappings, Function.comp_def] using hpairs
  · rw [List.Nodup, List.pairwise_map] at hcodes
    apply hcodes.imp
    intro f g hne
    rw [Function.onFun, List.disjoint_left]
    intro pair hf hg
    simp only [codedMappings, List.map_map, List.mem_map, Function.comp_apply] at hf hg
    obtain ⟨_, -, rfl⟩ := hf
    obtain ⟨_, -, h⟩ := hg
    exact hne (value_injective (Prod.mk.inj h).2.symm)

/-! ## The rows -/

/-- What a row shows: its domain, a code and the mapping under the code. -/
def rowEntries (row : ControlCoverageRow) : List (String × String × Option ControlMappingRead) :=
  row.perFramework.map fun e => (row.controlDomain, e.1, e.2)

/-- What the rows are to show of a framework. -/
def frameworkEntries (f : LoadedFramework) : List (String × String × Option ControlMappingRead) :=
  f.controlMappings.map fun m => (m.controlDomain, f.framework.code.value, some (controlMappingToRead m))

theorem mem_rowEntries {row : ControlCoverageRow} {domain code : String}
    {read : Option ControlMappingRead} :
    (domain, code, read) ∈ rowEntries row ↔
      row.controlDomain = domain ∧ (code, read) ∈ row.perFramework := by
  simp only [rowEntries, List.mem_map, Prod.mk.injEq]
  constructor
  · rintro ⟨e, he, hdomain, rfl, rfl⟩
    exact ⟨hdomain, he⟩
  · rintro ⟨hdomain, he⟩
    exact ⟨_, he, hdomain, rfl, rfl⟩

/-- The rows show every mapping of the frameworks once, under its domain and the code of its
framework, and nothing else. -/
structure Covers (frameworks : List LoadedFramework) (rows : List ControlCoverageRow) : Prop where
  sorted : rows.Pairwise fun a b => a.controlDomain < b.controlDomain
  entries : (rows.flatMap rowEntries).Perm (frameworks.flatMap frameworkEntries)
  codes : ∀ row ∈ rows, (row.perFramework.map Prod.fst).Nodup
  nonempty : ∀ row ∈ rows, row.perFramework ≠ []
  description : ∀ row ∈ rows, ∃ f ∈ frameworks, ∃ m ∈ f.controlMappings,
    m.controlDomain = row.controlDomain ∧ m.controlDescription = row.controlDescription
  percent : ∀ row ∈ rows, 0 ≤ row.coveragePercent ∧ row.coveragePercent ≤ 100

/-- The row of a mapping is the only one that shows it. -/
theorem Covers.once {frameworks : List LoadedFramework} {rows : List ControlCoverageRow}
    (h : Covers frameworks rows) {f : LoadedFramework} (hf : f ∈ frameworks) {m : ControlMapping}
    (hm : m ∈ f.controlMappings) :
    ∃ row ∈ rows, row.controlDomain = m.controlDomain ∧
      (f.framework.code.value, some (controlMappingToRead m)) ∈ row.perFramework ∧
      ∀ row' ∈ rows, (f.framework.code.value, some (controlMappingToRead m)) ∈ row'.perFramework →
        row' = row := by
  have hentry : (m.controlDomain, f.framework.code.value, some (controlMappingToRead m)) ∈
      rows.flatMap rowEntries :=
    h.entries.mem_iff.mpr (List.mem_flatMap.mpr ⟨f, hf, List.mem_map_of_mem hm⟩)
  obtain ⟨row, hrow, hshown⟩ := List.mem_flatMap.mp hentry
  obtain ⟨hdomain, hread⟩ := mem_rowEntries.mp hshown
  refine ⟨row, hrow, hdomain, hread, fun row' hrow' hread' => ?_⟩
  -- a row that shows the mapping has its domain, and the domains of the rows differ
  have hentry' : (row'.controlDomain, f.framework.code.value, some (controlMappingToRead m)) ∈
      frameworks.flatMap frameworkEntries :=
    h.entries.mem_iff.mp (List.mem_flatMap.mpr ⟨row', hrow', mem_rowEntries.mpr ⟨rfl, hread'⟩⟩)
  obtain ⟨f', -, hshown'⟩ := List.mem_flatMap.mp hentry'
  obtain ⟨m', -, heq⟩ := List.mem_map.mp hshown'
  simp only [Prod.mk.injEq, Option.some.injEq] at heq
  have hsame : m'.controlDomain = m.controlDomain :=
    congrArg ControlMappingRead.controlDomain heq.2.2
  have hdomain' : row'.controlDomain = row.controlDomain :=
    heq.1.symm.trans (hsame.trans hdomain.symm)
  have hnodup : (rows.map ControlCoverageRow.controlDomain).Nodup := by
    rw [List.Nodup, List.pairwise_map]
    exact h.sorted.imp ne_of_lt
  exact List.inj_on_of_nodup_map hnodup hrow' hrow hdomain'

/-- The row of a domain that was filled in. -/
def rowOf (descriptions : List (String × String))
    (e : String × List (String × ControlMapping)) : ControlCoverageRow :=
  controlCoverageRow e.1 e.2 ((descriptions.lookup e.1).getD "")

theorem buildControlCoverage_eq (frameworks : List LoadedFramework) :
    buildControlCoverage frameworks =
      some ((sortedItems (regrouped [] (frameworks.flatMap codedMappings))).map
        (rowOf (described [] (frameworks.flatMap codedMappings)))) := by
  have hrows : ∀ (d : List (String × List (String × ControlMapping)))
      (descriptions : List (String × String)),
      (∀ e ∈ d, e.1 ∈ descriptions.map Prod.fst) →
      (d.mapM fun e => (descriptions.lookup e.1).map (controlCoverageRow e.1 e.2)) =
        some (d.map (rowOf descriptions)) := by
    intro d descriptions hkeys
    induction d with
    | nil => rfl
    | cons e d ih =>
      obtain ⟨description, hlookup⟩ := Dictionaries.mem_keys.mp (hkeys e List.mem_cons_self)
      have hrest := ih fun e' he' => hkeys e' (List.mem_cons_of_mem _ he')
      simp [List.mapM_cons, hlookup, hrest, rowOf]
  rw [buildControlCoverage, domainTables_eq]
  apply hrows
  intro e he
  have hkeys : ((described [] (frameworks.flatMap codedMappings)).map Prod.fst) =
      (regrouped [] (frameworks.flatMap codedMappings)).map Prod.fst := keys_described rfl
  rw [hkeys]
  exact List.mem_map_of_mem ((sortedItems_perm _).mem_iff.mp he)

/-! ## Nothing is lost -/

section

variable {frameworks : List LoadedFramework}

/-- An entry of a row, from a domain, a code and the mapping that was filled in under them. -/
def shown (i : String × String × ControlMapping) : String × String × Option ControlMappingRead :=
  (i.1, i.2.1, some (controlMappingToRead i.2.2))

theorem rowEntries_rowOf (descriptions : List (String × String))
    (d : List (String × List (String × ControlMapping))) :
    (d.map (rowOf descriptions)).flatMap rowEntries = (items d).map shown := by
  rw [items, List.map_flatMap, List.flatMap_map]
  apply List.flatMap_congr
  intro e _
  simp [rowEntries, rowOf, controlCoverageRow, shown]

theorem frameworkEntries_eq (frameworks : List LoadedFramework) :
    frameworks.flatMap frameworkEntries =
      ((frameworks.flatMap codedMappings).map fun a => (a.2.controlDomain, a.1, a.2)).map shown := by
  rw [List.map_map, List.map_flatMap]
  apply List.flatMap_congr
  intro f _
  simp [frameworkEntries, codedMappings, shown]

/-- Under the constraints every mapping is filled in, and none is overwritten. -/
theorem items_regrouped (hcodes : (frameworks.map fun f => f.framework.code).Nodup)
    (hdomains : ∀ f ∈ frameworks, (f.controlMappings.map ControlMapping.controlDomain).Nodup) :
    (items (regrouped [] (frameworks.flatMap codedMappings))).Perm
      ((frameworks.flatMap codedMappings).map fun a => (a.2.controlDomain, a.1, a.2)) := by
  have hpairs : ((frameworks.flatMap codedMappings).map (fun a => (a.2.controlDomain, a.1)) ++
      (items ([] : List (String × List (String × ControlMapping)))).map pairOf).Nodup := by
    rw [items_nil, List.map_nil, List.append_nil]
    exact nodup_pairs hcodes hdomains
  have hperm : (items (regrouped [] (frameworks.flatMap codedMappings))).Perm
      ((frameworks.flatMap codedMappings).map (fun a => (a.2.controlDomain, a.1, a.2)) ++
        items []) := items_regroup List.nodup_nil hpairs
  rw [items_nil, List.append_nil] at hperm
  exact hperm

/-- A row takes its description from one of its mappings. -/
theorem rowOf_description {as : List (String × ControlMapping)}
    {e : String × List (String × ControlMapping)} (he : e ∈ regrouped [] as) :
    ∃ a ∈ as, a.2.controlDomain = e.1 ∧
      a.2.controlDescription = (rowOf (described [] as) e).controlDescription := by
  have hkeys : (described [] as).map Prod.fst = (regrouped [] as).map Prod.fst := keys_described rfl
  have hmem : e.1 ∈ (described [] as).map Prod.fst := hkeys ▸ List.mem_map_of_mem he
  obtain ⟨description, hlookup⟩ := Dictionaries.mem_keys.mp hmem
  obtain ⟨a, ha, heq⟩ := (mem_described (Dictionaries.mem_of_lookup hlookup)).resolve_left
    List.not_mem_nil
  obtain ⟨hdomain, hdescription⟩ := Prod.mk.inj heq
  refine ⟨a, ha, hdomain.symm, ?_⟩
  simp [rowOf, controlCoverageRow, hlookup, hdescription]

theorem covers_regrouped (hcodes : (frameworks.map fun f => f.framework.code).Nodup)
    (hdomains : ∀ f ∈ frameworks, (f.controlMappings.map ControlMapping.controlDomain).Nodup) :
    Covers frameworks ((sortedItems (regrouped [] (frameworks.flatMap codedMappings))).map
      (rowOf (described [] (frameworks.flatMap codedMappings)))) := by
  have hitems := items_regrouped hcodes hdomains
  have hpairs : ((items (regrouped [] (frameworks.flatMap codedMappings))).map pairOf).Nodup := by
    apply (hitems.map pairOf).nodup_iff.mpr
    rw [List.map_map]
    exact nodup_pairs hcodes hdomains
  have hempty : ∀ g ∈ ([] : List (String × List (String × ControlMapping))), g.2 ≠ [] :=
    fun _ h => nomatch h
  have hperm := sortedItems_perm (regrouped [] (frameworks.flatMap codedMappings))
  constructor
  case sorted => exact List.pairwise_map.mpr (sortedItems_sorted (nodup_regroup List.nodup_nil))
  case entries =>
    rw [rowEntries_rowOf, frameworkEntries_eq]
    exact ((items_perm hperm).trans hitems).map shown
  case codes =>
    intro row hrow
    obtain ⟨e, he, rfl⟩ := List.mem_map.mp hrow
    have hcodes := nodup_inner hpairs e (hperm.mem_iff.mp he)
    simpa [rowOf, controlCoverageRow, Function.comp_def] using hcodes
  case nonempty =>
    intro row hrow
    obtain ⟨e, he, rfl⟩ := List.mem_map.mp hrow
    have hsome : e.2 ≠ [] := regroup_ne_nil hempty e (hperm.mem_iff.mp he)
    simpa [rowOf, controlCoverageRow] using hsome
  case description =>
    intro row hrow
    obtain ⟨e, he, rfl⟩ := List.mem_map.mp hrow
    obtain ⟨a, ha, hdomain, hdescription⟩ := rowOf_description (hperm.mem_iff.mp he)
    obtain ⟨f, hf, hcoded⟩ := List.mem_flatMap.mp ha
    obtain ⟨m, hm, rfl⟩ := List.mem_map.mp hcoded
    exact ⟨f, hf, m, hm, hdomain, hdescription⟩
  case percent =>
    intro row hrow
    obtain ⟨e, -, rfl⟩ := List.mem_map.mp hrow
    exact ⟨coveragePercent_nonneg 0 _, coveragePercent_le 0 _⟩

/-- The coverage of the control domains loses no mapping: under the constraints the rows come in
the order of their domains, show every mapping in exactly one row, and show nothing else. -/
theorem control_coverage_lossless (hcodes : (frameworks.map fun f => f.framework.code).Nodup)
    (hdomains : ∀ f ∈ frameworks, (f.controlMappings.map ControlMapping.controlDomain).Nodup) :
    ∃ rows, buildControlCoverage frameworks = some rows ∧ Covers frameworks rows ∧
      ∀ f ∈ frameworks, ∀ m ∈ f.controlMappings, ∃ row ∈ rows,
        row.controlDomain = m.controlDomain ∧
        (f.framework.code.value, some (controlMappingToRead m)) ∈ row.perFramework ∧
        ∀ row' ∈ rows,
          (f.framework.code.value, some (controlMappingToRead m)) ∈ row'.perFramework →
            row' = row := by
  have hcovers := covers_regrouped hcodes hdomains
  exact ⟨_, buildControlCoverage_eq frameworks, hcovers, fun f hf m hm => hcovers.once hf hm⟩

end

/-! ## Two frameworks -/

def sampleFrameworks : List LoadedFramework :=
  [⟨⟨1, .soc2⟩,
      [⟨10, 1, "Logging", "Audit logs", "CC7.2", .mapped⟩,
        ⟨11, 1, "Access Control", "Logical access", "CC6.1", .partiallyMapped⟩]⟩,
    ⟨⟨2, .gdpr⟩, [⟨20, 2, "Access Control", "Access to data", "Art. 32", .gap⟩]⟩]

/-- Two of the three mappings share a row. -/
theorem control_coverage_lossless_sample :
    ∃ rows, buildControlCoverage sampleFrameworks = some rows ∧ Covers sampleFrameworks rows :=
  (control_coverage_lossless (by decide) (by decide)).imp fun _ h => ⟨h.1, h.2.1⟩

example : (buildControlCoverage sampleFrameworks).map (List.map fun row =>
      (row.controlDomain, row.perFramework.map Prod.fst, row.coveragePercent)) =
    some [("Access Control", ["soc2", "gdpr"], 25), ("Logging", ["soc2"], 100)] := by
  decide +kernel

end NexusEngine.ControlCoverage
