import NexusEngine.AuditLogPages
import NexusEngine.LikePatterns

/-!
# Searching the audit log

A search text is put between two wildcards as it is. So the search is one for a substring exactly
where the text has no wildcard and no escape of its own, and as far as the actor is concerned also
where no stored actor is long enough to match.
-/

namespace NexusEngine.AuditSearches

open TransactionalRequests StoredColumns AuditLogTable Database DashboardActivity AuditLogReads
  AuditLogPages RankedRows Paging LikePatterns

/-! ## The operator of the database -/

def likeWildcards : Wildcards Char := ⟨'%', '_', '\\', by decide⟩

/-- `ILIKE` folds the case of both texts, character by character. -/
def ilike (fold : Char → Char) (s pattern : String) : Bool :=
  accepts (tokens likeWildcards (pattern.toList.map fold)) (s.toList.map fold)

/-- The text contains `q`, ignoring case. -/
def containsText (fold : Char → Char) (q s : String) : Bool :=
  decide (q.toList.map fold <:+: s.toList.map fold)

/-- The shortest text that the pattern of a search matches. -/
def shortestMatch (q : String) : List Char :=
  shortest 'a' (tokens likeWildcards (containing likeWildcards q.toList))

section

variable {fold : Char → Char} {q s : String}

theorem toList_pattern (q : String) :
    ("%" ++ q ++ "%").toList = containing likeWildcards q.toList := by
  simp [containing, likeWildcards]

theorem ilike_pattern (hfold : Keeps likeWildcards fold) :
    ilike fold s ("%" ++ q ++ "%") =
      accepts (tokens likeWildcards (containing likeWildcards (q.toList.map fold)))
        (s.toList.map fold) := by
  rw [ilike, toList_pattern, hfold.containing]

/-- A plain text is searched for as a substring. -/
theorem ilike_of_plain (hfold : Keeps likeWildcards fold) (hq : Plain likeWildcards q.toList) :
    ilike fold s ("%" ++ q ++ "%") = containsText fold q s := by
  rw [ilike_pattern hfold, Bool.eq_iff_iff, accepts_containing (hfold.plain.mpr hq), containsText,
    decide_eq_true_eq]

theorem map_shortestMatch (hfold : Keeps likeWildcards fold) (q : String) :
    (shortestMatch q).map fold =
      shortest (fold 'a') (tokens likeWildcards (containing likeWildcards (q.toList.map fold))) := by
  rw [shortestMatch, shortest_map, ← hfold.tokens, hfold.containing]

theorem ilike_shortestMatch (hfold : Keeps likeWildcards fold) (q : String) :
    ilike fold (String.ofList (shortestMatch q)) ("%" ++ q ++ "%") = true := by
  rw [ilike_pattern hfold, String.toList_ofList, map_shortestMatch hfold]
  exact accepts_shortest _ _

theorem containsText_shortestMatch (hfold : Keeps likeWildcards fold) :
    containsText fold q (String.ofList (shortestMatch q)) = true ↔
      Plain likeWildcards q.toList := by
  have hone : fold 'a' ≠ likeWildcards.one := fun h =>
    absurd ((hfold.one 'a').mp h) (by decide)
  rw [containsText, decide_eq_true_eq, String.toList_ofList, map_shortestMatch hfold,
    infix_shortest_iff hone, hfold.plain]

theorem length_shortestMatch_le (hfold : Keeps likeWildcards fold)
    (h : ilike fold s ("%" ++ q ++ "%") = true) : (shortestMatch q).length ≤ s.toList.length := by
  rw [ilike_pattern hfold] at h
  have hle := length_shortest_le (fold 'a') h
  rw [← map_shortestMatch hfold, List.length_map, List.length_map] at hle
  exact hle

/-- What contains the text is as long as the shortest match. -/
theorem length_shortestMatch_le_of_contains (h : containsText fold q s = true) :
    (shortestMatch q).length ≤ s.toList.length := by
  have hle := (of_decide_eq_true h).length_le
  rw [List.length_map, List.length_map] at hle
  exact (length_shortest_containing 'a' q.toList).trans hle

/-- Only the text, an `a` and a `%` give characters to the shortest match. -/
theorem text_shortestMatch (h : text q = some q) :
    text (String.ofList (shortestMatch q)) = some (String.ofList (shortestMatch q)) := by
  rw [text_iff] at h ⊢
  rw [String.toList_ofList]
  intro hmem
  rcases mem_shortest hmem with ha | hmem
  · exact absurd ha (by decide)
  · simp only [containing, List.mem_cons, List.mem_append, List.not_mem_nil, or_false] at hmem
    rcases hmem with hany | hq | hany
    · exact absurd hany (by decide)
    · exact h hq
    · exact absurd hany (by decide)

end

/-! ## What a listing returns -/

/-- Every row is one that the columns of the table can hold. -/
def StoredLog (log : List AuditLogEntry) : Prop :=
  ∀ e ∈ log, ∃ entry sequence, NewAuditLogEntry.stored entry sequence = some e

/-- On every table every page that the database takes is one of the wanted entries, the latest
first, with their number as the total. -/
def Lists (operator : String → String → Bool) (query : EntryQuery)
    (wanted : AuditLogEntry → Bool) : Prop :=
  ∀ (db : Db) (n pageSize k : ℕ), StoredLog db.auditLog → isRowCount pageSize = true →
    isRowCount ((k * pageSize : ℕ) : ℤ) = true →
    entriesPage operator query db n pageSize (k + 1) =
      some ((page (fromLargest AuditLogEntry.sequence (db.auditLog.filter wanted)) pageSize k).map
        entryToRead, (db.auditLog.filter wanted).length)

/-- The listing is right where the database takes the conditions and they select the wanted
entries. -/
theorem lists_iff {operator : String → String → Bool} {query : EntryQuery} {filter : EntryFilter}
    {wanted : AuditLogEntry → Bool} (hbind : query.bind = some filter) :
    Lists operator query wanted ↔ filter.sendable = true ∧
      ∀ entry sequence e, NewAuditLogEntry.stored entry sequence = some e →
        filter.passes operator e = wanted e := by
  constructor
  · intro h
    have hcounts : isRowCount ((1 : ℕ) : ℤ) = true ∧ isRowCount ((0 * 1 : ℕ) : ℤ) = true := by
      decide
    have hpage : ∀ log, StoredLog log → Accepts query 1 (0 * 1) ∧
        (log.filter (filter.passes operator)).length = (log.filter wanted).length := by
      intro log hlog
      have hone := h { emptyDb with auditLog := log } 0 1 0 hlog hcounts.1 hcounts.2
      rw [entriesPage_succ, matching, hbind] at hone
      split at hone
      · next haccepts => exact ⟨haccepts, congrArg Prod.snd (Option.some.inj hone)⟩
      · cases hone
    constructor
    · have hnone : StoredLog [] := by
        intro e he
        cases he
      have haccepted := (hpage [] hnone).1.1
      simpa [accepted, hbind] using haccepted
    · intro entry sequence e hstored
      have hlog : StoredLog [e] := by
        intro e' he'
        rw [List.mem_singleton.mp he']
        exact ⟨entry, sequence, hstored⟩
      have hlength := (hpage [e] hlog).2
      cases hpasses : filter.passes operator e <;> cases hwanted : wanted e <;>
        simp [hpasses, hwanted] at hlength ⊢
  · rintro ⟨hsendable, hpasses⟩ db n pageSize k hlog hsize hoffset
    have haccepts : Accepts query pageSize (k * pageSize) := by
      refine ⟨?_, hsize, hoffset⟩
      simp [accepted, hbind, hsendable]
    have hfilter : db.auditLog.filter (filter.passes operator) = db.auditLog.filter wanted := by
      apply List.filter_congr
      intro e he
      obtain ⟨entry, sequence, hstored⟩ := hlog e he
      exact hpasses entry sequence e hstored
    rw [entriesPage_succ, if_pos haccepts, matching, hbind]
    simp only [hfilter]

/-! ## The two searches -/

/-- The actor contains the text. -/
def actorContains (fold : Char → Char) (q : String) (e : AuditLogEntry) : Bool :=
  containsText fold q e.actor

/-- One of the searched columns contains the text. -/
def anyContains (fold : Char → Char) (q : String) (e : AuditLogEntry) : Bool :=
  [some e.actor, some e.description, some e.eventSubtype, e.tenantSlug, e.sourceIp].any fun column =>
    column.any fun s => containsText fold q s

section

variable {fold : Char → Char} {q : String}

theorem nonempty_some (hq : q ≠ "") : nonempty (some q) = some q := by
  simp [nonempty, hq]

theorem bind_actorSearch (hq : q ≠ "") : ({ actorSearch := some q } : EntryQuery).bind =
    some ⟨none, none, none, some q, none, none, none⟩ := by
  have hbound : ({ actorSearch := some q } : EntryQuery).bind =
      some ⟨none, none, nonempty none, nonempty (some q), nonempty none, none, none⟩ := rfl
  rw [hbound, nonempty_some hq]
  rfl

theorem bind_search (hq : q ≠ "") : ({ search := some q } : EntryQuery).bind =
    some ⟨none, none, none, none, some q, none, none⟩ := by
  have hbound : ({ search := some q } : EntryQuery).bind =
      some ⟨none, none, nonempty none, nonempty none, nonempty (some q), none, none⟩ := rfl
  rw [hbound, nonempty_some hq]
  rfl

theorem text_isSome_iff : (text q).isSome = true ↔ text q = some q := by
  constructor
  · intro h
    obtain ⟨t, ht⟩ := Option.isSome_iff_exists.mp h
    rw [ht, text_eq_some ht]
  · intro h
    rw [h]
    rfl

theorem lists_actor_iff (hq : q ≠ "") :
    Lists (ilike fold) { actorSearch := some q } (actorContains fold q) ↔ text q = some q ∧
      ∀ entry sequence e, NewAuditLogEntry.stored entry sequence = some e →
        ilike fold e.actor ("%" ++ q ++ "%") = containsText fold q e.actor := by
  rw [lists_iff (bind_actorSearch hq)]
  simp [EntryFilter.sendable, EntryFilter.passes, actorContains, text_isSome_iff]

theorem lists_search_iff (hq : q ≠ "") :
    Lists (ilike fold) { search := some q } (anyContains fold q) ↔ text q = some q ∧
      ∀ entry sequence e, NewAuditLogEntry.stored entry sequence = some e →
        ([some e.actor, some e.description, some e.eventSubtype, e.tenantSlug, e.sourceIp].any
          fun column => column.any fun s => ilike fold s ("%" ++ q ++ "%")) = anyContains fold q e := by
  rw [lists_iff (bind_search hq)]
  simp only [EntryFilter.sendable, EntryFilter.passes, Option.all_none, Option.all_some,
    Bool.true_and, Bool.and_true, Option.toList_none, Option.toList_some, List.nil_append,
    List.all_cons, List.all_nil, text_isSome_iff]

/-- An entry with a given actor and description. -/
def entryOf (actor description : String) : NewAuditLogEntry where
  id := 1
  occurredAt := 0
  severity := "info"
  eventType := "auth_event"
  eventSubtype := ""
  tenantId := none
  tenantSlug := none
  actor := actor
  sourceIp := none
  description := description
  metadataJson := .obj []
  prevHash := none
  entryHash := ""
  signingKeyId := ""
  signature := ""
  createdAt := 0

theorem entryOf_stored {actor description : String} (hactor : varchar 120 actor = some actor)
    (hdescription : text description = some description) :
    ∃ e, (entryOf actor description).stored 1 = some e ∧ e.actor = actor ∧
      e.description = description ∧ e.eventSubtype = "" ∧ e.tenantSlug = none ∧
      e.sourceIp = none := by
  have hseverity : auditSeverityColumn.bind "info" = some .info := by decide
  have htype : auditEventTypeColumn.bind "auth_event" = some .authEvent := by decide
  have hempty : ∀ n, varchar n "" = some "" := fun n => varchar_of_text (by decide) (Nat.zero_le n)
  have hblank : text "" = some "" := by decide
  have hmetadata : json (.obj []) = some (.obj []) := by decide
  have hstored : ((entryOf actor description).stored 1).isSome := by
    simp only [NewAuditLogEntry.stored, entryOf, hseverity, htype, hempty, nullable, hactor,
      hdescription, hmetadata, hblank, Option.bind_eq_bind, Option.bind_some, Option.pure_def,
      Option.isSome_some]
  obtain ⟨e, he⟩ := Option.isSome_iff_exists.mp hstored
  have hkept := NewAuditLogEntry.keptAs he
  have hsubtype := hkept.eventSubtype
  have heactor := hkept.actor
  have hslug := hkept.tenantSlug
  have hip := hkept.sourceIp
  simp only [entryOf, hempty, hactor, nullable, Option.some.injEq] at hsubtype heactor hslug hip
  exact ⟨e, he, heactor.symm, hkept.description, hsubtype.symm, hslug.symm, hip.symm⟩

theorem containsText_empty (hq : q ≠ "") : containsText fold q "" = false := by
  have hne : q.toList ≠ [] := fun h => hq (String.toList_eq_nil_iff.mp h)
  simpa [containsText] using hne

/-- Where the text is not plain, an entry whose actor is the shortest match is found, and it does
not contain the text. -/
theorem actor_search_iff (hfold : Keeps likeWildcards fold) (hq : q ≠ "") :
    Lists (ilike fold) { actorSearch := some q } (actorContains fold q) ↔ text q = some q ∧
      (Plain likeWildcards q.toList ∨ 120 < (shortestMatch q).length) := by
  rw [lists_actor_iff hq]
  apply and_congr_right
  intro htext
  constructor
  · intro h
    by_contra hnot
    rw [not_or, not_lt] at hnot
    have hactor : varchar 120 (String.ofList (shortestMatch q)) =
        some (String.ofList (shortestMatch q)) :=
      varchar_of_text (text_shortestMatch htext) (by rw [String.toList_ofList]; exact hnot.2)
    obtain ⟨e, hstored, heactor, -⟩ := entryOf_stored hactor (by decide : text "" = some "")
    have hsame := h _ _ e hstored
    rw [heactor, ilike_shortestMatch hfold] at hsame
    exact hnot.1 ((containsText_shortestMatch hfold).mp hsame.symm)
  · rintro (hplain | hlong) entry sequence e hstored
    · exact ilike_of_plain hfold hplain
    · have hwidth : e.actor.toList.length ≤ 120 := varchar_length (entry.keptAs hstored).actor
      have hshort : ∀ b : Bool, (b = true → (shortestMatch q).length ≤ e.actor.toList.length) →
          b = false := by
        intro b hb
        cases b with
        | false => rfl
        | true => have := hb rfl; omega
      rw [hshort _ (length_shortestMatch_le hfold), hshort _ length_shortestMatch_le_of_contains]

/-- A description has room for every text. -/
theorem search_iff (hfold : Keeps likeWildcards fold) (hq : q ≠ "") :
    Lists (ilike fold) { search := some q } (anyContains fold q) ↔ text q = some q ∧
      Plain likeWildcards q.toList := by
  rw [lists_search_iff hq]
  apply and_congr_right
  intro htext
  constructor
  · intro h
    obtain ⟨e, hstored, hactor, hdescription, hsubtype, hslug, hip⟩ :=
      entryOf_stored (by decide : varchar 120 "" = some "") (text_shortestMatch htext)
    have hsame := h _ _ e hstored
    have hcontains : anyContains fold q e =
        containsText fold q (String.ofList (shortestMatch q)) := by
      simp [anyContains, hactor, hdescription, hsubtype, hslug, hip, containsText_empty hq]
    rw [hcontains, hdescription] at hsame
    apply (containsText_shortestMatch hfold).mp
    rw [← hsame]
    simp [ilike_shortestMatch hfold]
  · intro hplain entry sequence e _
    have hsame : (fun s => ilike fold s ("%" ++ q ++ "%")) = fun s => containsText fold q s :=
      funext fun s => ilike_of_plain hfold hplain
    simp only [anyContains, hsame]

end

/-- A search by actor lists exactly the entries whose actor contains the text, and a search those
where one of the searched columns does, on every table, exactly where the text has no wildcard, no
escape and no NUL character. A search by actor finds nothing, rightly, for a text whose shortest
match is longer than an actor. -/
theorem searches_iff (fold : Char → Char) (hfold : Keeps likeWildcards fold) (q : String)
    (hq : q ≠ "") :
    (Lists (ilike fold) { actorSearch := some q } (actorContains fold q) ↔ text q = some q ∧
      (Plain likeWildcards q.toList ∨ 120 < (shortestMatch q).length)) ∧
    (Lists (ilike fold) { search := some q } (anyContains fold q) ↔ text q = some q ∧
      Plain likeWildcards q.toList) :=
  ⟨actor_search_iff hfold hq, search_iff hfold hq⟩

theorem toLower_eq_iff {c d : Char} (hd : d.toNat < 97) (hd' : d.toNat < 65 ∨ 90 < d.toNat) :
    c.toLower = d ↔ c = d := by
  unfold Char.toLower
  split
  · next hupper =>
    have hlow : 65 ≤ c.val.toNat := UInt32.le_iff_toNat_le.mp hupper.1
    have hhigh : c.val.toNat ≤ 90 := UInt32.le_iff_toNat_le.mp hupper.2
    constructor
    · intro h
      have hval : (c.val + ('a'.val - 'A'.val)).toNat = d.toNat := congrArg Char.toNat h
      have hshift : ('a'.val - 'A'.val).toNat = 32 := by decide
      rw [UInt32.toNat_add, hshift] at hval
      omega
    · intro h
      have hval : c.val.toNat = d.toNat := congrArg Char.toNat h
      omega
  · rfl

theorem keeps_toLower : Keeps likeWildcards Char.toLower where
  any _ := toLower_eq_iff (by decide) (by decide)
  one _ := toLower_eq_iff (by decide) (by decide)
  escape _ := toLower_eq_iff (by decide) (by decide)

/-- A search for letters is one for a substring. -/
theorem searches_iff_sample :
    Lists (ilike Char.toLower) { actorSearch := some "Alice" } (actorContains Char.toLower "Alice") ∧
      Lists (ilike Char.toLower) { search := some "policy drift" }
        (anyContains Char.toLower "policy drift") :=
  ⟨(searches_iff Char.toLower keeps_toLower "Alice" (by decide)).1.mpr
      ⟨by decide, .inl (by decide)⟩,
    (searches_iff Char.toLower keeps_toLower "policy drift" (by decide)).2.mpr
      ⟨by decide, by decide⟩⟩

/-- A search for `key_rotate` lists an entry that contains `key-rotate` only: the underscore takes
any character. -/
theorem underscore_search_refuted :
    ∃ e, (entryOf "eve" "key-rotate").stored 1 = some e ∧
      entriesPage (ilike Char.toLower) { search := some "key_rotate" }
        { emptyDb with auditLog := [e] } 0 50 1 = some ([entryToRead e], 1) ∧
      anyContains Char.toLower "key_rotate" e = false ∧
      ¬ Lists (ilike Char.toLower) { search := some "key_rotate" }
        (anyContains Char.toLower "key_rotate") := by
  obtain ⟨e, hstored, hactor, hdescription, hsubtype, hslug, hip⟩ :=
    entryOf_stored (by decide : varchar 120 "eve" = some "eve")
      (by decide : text "key-rotate" = some "key-rotate")
  have hcontains : anyContains Char.toLower "key_rotate" e = false := by
    rw [anyContains, hactor, hdescription, hsubtype, hslug, hip]
    decide
  have hmatching : matching (ilike Char.toLower) { search := some "key_rotate" } [e] = [e] := by
    have hfound : ilike Char.toLower "key-rotate" "%key_rotate%" = true := by decide
    simp [matching, bind_search, EntryFilter.passes, hdescription, hfound]
  have haccepts : Accepts { search := some "key_rotate" } 50 (0 * 50) := by decide
  have hpage : entriesPage (ilike Char.toLower) { search := some "key_rotate" }
      { emptyDb with auditLog := [e] } 0 50 (0 + 1) = some ([entryToRead e], 1) := by
    rw [entriesPage_succ, if_pos haccepts, hmatching]
    rfl
  refine ⟨e, hstored, hpage, hcontains, fun h => ?_⟩
  have hplain := ((search_iff keeps_toLower (by decide)).mp h).2
  exact absurd hplain (by decide)

end NexusEngine.AuditSearches
