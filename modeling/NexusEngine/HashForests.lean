import NexusEngine.HashChains

/-!
# Forests of linked rows

Rows that are appended concurrently can name the same predecessor. Where every row names the digest
of a row before it, or none, the rows form a forest: every row is the end of one chain that starts
from a first row.
-/

namespace NexusEngine.HashChains

variable {Row Content Digest : Type*}

namespace ChainFormat

variable (F : ChainFormat Row Content Digest)

/-- Every row names the one before it. -/
def Follows : Option Digest → List Row → Prop
  | _, [] => True
  | before, r :: rs => F.prev r = before ∧ Follows (some (F.digest r)) rs

/-- A chain is intact when its rows name each other and hash to their digests. -/
theorem intact_iff (before : Option Digest) (rs : List Row) :
    F.Intact before rs ↔ F.Follows before rs ∧ ∀ r ∈ rs, F.hash (F.prev r) r = F.digest r := by
  induction rs generalizing before with
  | nil => simp [Follows]
  | cons r rs ih =>
    simp only [Intact, Follows, Fits, ih, List.forall_mem_cons]
    constructor
    · rintro ⟨⟨hhash, hprev⟩, hfollows, hrest⟩
      exact ⟨⟨hprev, hfollows⟩, hprev ▸ hhash, hrest⟩
    · rintro ⟨⟨hprev, hfollows⟩, hhash, hrest⟩
      exact ⟨⟨hprev ▸ hhash, hprev⟩, hfollows, hrest⟩

theorem follows_concat (before : Option Digest) (rs : List Row) (r : Row) :
    F.Follows before (rs ++ [r]) ↔
      F.Follows before rs ∧ F.prev r = F.endDigest before rs := by
  induction rs generalizing before with
  | nil => simp [Follows]
  | cons s rs ih => simp [Follows, ih, and_assoc]

/-- Every row names a row before it, or none. -/
inductive Grounded : List Row → Prop where
  | nil : Grounded []
  | concat {rs : List Row} {r : Row} (earlier : Grounded rs)
      (named : ∀ d, F.prev r = some d → ∃ p ∈ rs, F.digest p = d) : Grounded (rs ++ [r])

/-- The rows from a first one to `r`, each naming the one before it. -/
structure History (rs : List Row) (r : Row) (path : List Row) : Prop where
  sublist : path.Sublist rs
  last : path.getLast? = some r
  follows : F.Follows none path

variable {F}

theorem History.end_eq {rs path : List Row} {r : Row} (h : F.History rs r path) :
    F.endDigest none path = some (F.digest r) := by
  rw [F.endDigest_eq_getLast?, h.last, Option.map_some]

/-- A history leads to every row. -/
theorem Grounded.exists_history {rs : List Row} (h : F.Grounded rs) :
    ∀ r ∈ rs, ∃ path, F.History rs r path := by
  induction h with
  | nil =>
    intro r hr
    cases hr
  | @concat rs r earlier named ih =>
    have hold : rs.Sublist (rs ++ [r]) := List.sublist_append_left rs [r]
    intro s hs
    rcases List.mem_append.mp hs with hs | hs
    · obtain ⟨path, hpath⟩ := ih s hs
      exact ⟨path, hpath.sublist.trans hold, hpath.last, hpath.follows⟩
    · obtain rfl := List.mem_singleton.mp hs
      cases hprev : F.prev s with
      | none =>
        refine ⟨[s], List.sublist_append_right rs [s], rfl, ?_⟩
        simp [Follows, hprev]
      | some d =>
        obtain ⟨p, hp, rfl⟩ := named d hprev
        obtain ⟨path, hpath⟩ := ih p hp
        refine ⟨path ++ [s], hpath.sublist.append_right [s], List.getLast?_concat, ?_⟩
        rw [F.follows_concat, hpath.end_eq]
        exact ⟨hpath.follows, hprev⟩

/-- Where no digest occurs twice, the history of a row is the only one. -/
theorem History.unique {rs : List Row} (hnodup : (rs.map F.digest).Nodup) {r : Row}
    {path path' : List Row} (h : F.History rs r path) (h' : F.History rs r path') :
    path = path' := by
  induction path using List.reverseRecOn generalizing r path' with
  | nil =>
    have hlast := h.last
    cases hlast
  | append_singleton path s ih =>
    have hs : s = r := by simpa using h.last
    subst hs
    obtain ⟨path', rfl⟩ := List.getLast?_eq_some_iff.mp h'.last
    obtain ⟨hfollows, hprev⟩ := (F.follows_concat ..).mp h.follows
    obtain ⟨hfollows', hprev'⟩ := (F.follows_concat ..).mp h'.follows
    have hends : F.endDigest none path = F.endDigest none path' := hprev.symm.trans hprev'
    have hin := (List.sublist_append_left path [s]).trans h.sublist
    have hin' := (List.sublist_append_left path' [s]).trans h'.sublist
    -- the rows before the last one end with the same row
    rcases List.eq_nil_or_concat' path with rfl | ⟨front, q, rfl⟩
    · rcases List.eq_nil_or_concat' path' with rfl | ⟨front', q', rfl⟩
      · rfl
      · simp at hends
    · rcases List.eq_nil_or_concat' path' with rfl | ⟨front', q', rfl⟩
      · simp at hends
      · have hdigest : F.digest q = F.digest q' := by simpa using hends
        have hq : q ∈ rs := hin.subset (List.mem_append_right _ List.mem_cons_self)
        have hq' : q' ∈ rs := hin'.subset (List.mem_append_right _ List.mem_cons_self)
        obtain rfl : q = q' := List.inj_on_of_nodup_map hnodup hq hq' hdigest
        have heq := ih (r := q) ⟨hin, List.getLast?_concat, hfollows⟩
          ⟨hin', List.getLast?_concat, hfollows'⟩
        rw [heq]

/-- Every row of a forest has one history. -/
theorem Grounded.existsUnique_history {rs : List Row} (h : F.Grounded rs)
    (hnodup : (rs.map F.digest).Nodup) {r : Row} (hr : r ∈ rs) : ∃! path, F.History rs r path := by
  obtain ⟨path, hpath⟩ := h.exists_history r hr
  exact ⟨path, hpath, fun _ hother => hother.unique hnodup hpath⟩

/-- A row of a chain is the last one, or another row names it. -/
theorem Follows.next {before : Option Digest} {rs : List Row} (h : F.Follows before rs) {p : Row}
    (hp : p ∈ rs) : rs.getLast? = some p ∨ ∃ q ∈ rs, F.prev q = some (F.digest p) := by
  induction rs generalizing before with
  | nil => cases hp
  | cons r rs ih =>
    obtain ⟨-, hrest⟩ := h
    rcases List.mem_cons.mp hp with rfl | hp
    · cases rs with
      | nil => exact .inl rfl
      | cons q rs => exact .inr ⟨q, List.mem_cons_of_mem _ List.mem_cons_self, hrest.1⟩
    · rcases ih hrest hp with hlast | ⟨q, hq, hnames⟩
      · left
        rw [List.getLast?_cons, hlast, Option.getD_some]
      · exact .inr ⟨q, List.mem_cons_of_mem _ hq, hnames⟩

/-- Rows that all name different rows form one chain. -/
theorem Grounded.follows {rs : List Row} (h : F.Grounded rs) (hnodup : (rs.map F.prev).Nodup) :
    F.Follows none rs := by
  induction h with
  | nil => trivial
  | @concat rs r earlier named ih =>
    rw [List.map_append, List.nodup_append] at hnodup
    obtain ⟨hold, -, hother⟩ := hnodup
    have hchain := ih hold
    have hfork : ∀ q ∈ rs, F.prev q ≠ F.prev r := fun q hq =>
      hother _ (List.mem_map_of_mem hq) _ List.mem_cons_self
    rw [F.follows_concat, F.endDigest_eq_getLast?]
    refine ⟨hchain, ?_⟩
    cases hprev : F.prev r with
    | none =>
      cases rs with
      | nil => rfl
      | cons q rs => exact absurd (hchain.1.trans hprev.symm) (hfork q List.mem_cons_self)
    | some d =>
      obtain ⟨p, hp, rfl⟩ := named d hprev
      rcases hchain.next hp with hlast | ⟨q, hq, hnames⟩
      · rw [hlast, Option.map_some]
      · exact absurd (hnames.trans hprev.symm) (hfork q hq)

end ChainFormat

end NexusEngine.HashChains
