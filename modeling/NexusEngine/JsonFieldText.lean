import NexusEngine.MetadataSanitisation

/-!
# The text of a field

The operator `->>` of the database gives a field of a stored document as text. It decodes every
string of the document on its way. A `json` column takes the escape of the character NUL, which no
text holds, so that the operator fails at a document with it, whatever field it is asked for.
-/

namespace NexusEngine.JsonFieldText

open TextEncodings JsonDocuments StoredColumns AuditService MetadataSanitisation

/-! ## Stored text -/

def spaced (texts : List (List Char)) : List Char :=
  (texts.flatMap fun text => ',' :: ' ' :: text).drop 2

mutual

/-- The text that a document is stored as: a blank follows every comma and every colon. -/
def written : Json → List Char
  | .arr vs => '[' :: (spaced (writtenItems vs) ++ [']'])
  | .obj kvs => '{' :: (spaced (writtenMembers kvs) ++ ['}'])
  | v => render v
termination_by structural v => v

def writtenItems : List Json → List (List Char)
  | [] => []
  | v :: vs => written v :: writtenItems vs
termination_by structural vs => vs

def writtenMembers : List (String × Json) → List (List Char)
  | [] => []
  | kv :: kvs => writtenMember kv :: writtenMembers kvs
termination_by structural kvs => kvs

def writtenMember : String × Json → List Char
  | (k, v) => stringText k ++ ':' :: ' ' :: written v
termination_by structural kv => kv

end

def asText : Json → Option String
  | .null => none
  | .str s => some s
  | v => some (String.ofList (written v))

/-! ## Strings that are decoded -/

def decodes (s : String) : Bool := !(chars s).contains (Char.ofNat 0)

mutual

/-- Every key and every string of the document is decoded. -/
def isDecodable : Json → Bool
  | .str s => decodes s
  | .arr vs => areDecodable vs
  | .obj kvs => areMembersDecodable kvs
  | _ => true
termination_by structural v => v

def areDecodable : List Json → Bool
  | [] => true
  | v :: vs => isDecodable v && areDecodable vs
termination_by structural vs => vs

def areMembersDecodable : List (String × Json) → Bool
  | [] => true
  | kv :: kvs => isMemberDecodable kv && areMembersDecodable kvs
termination_by structural kvs => kvs

def isMemberDecodable : String × Json → Bool
  | (k, v) => decodes k && isDecodable v
termination_by structural kv => kv

end

/-- The operator `->>`, of a document without the field or with a null one too. -/
def fieldText (v : Json) (key : String) : Option (Option String) :=
  if isDecodable v then some ((child v (.key key)).bind asText) else none

theorem decodes_of_text {s s' : String} (h : text s = some s') : decodes s = true := by
  unfold text at h
  split at h
  · cases h
  · next hnul => simpa [decodes] using hnul

theorem decodes_of_varchar {n : ℕ} {s s' : String} (h : varchar n s = some s') :
    decodes s = true := by
  obtain ⟨_, htext, -⟩ := Option.bind_eq_some_iff.mp h
  exact decodes_of_text htext

theorem decodes_iff {s : String} : decodes s = true ↔ Char.ofNat 0 ∉ s.toList := by
  simp [decodes, chars_eq]

/-- What a column keeps of a text is decoded. -/
theorem decodes_varchar {n : ℕ} {s s' : String} (h : varchar n s = some s') :
    decodes s' = true := by
  have hs := decodes_iff.mp (decodes_of_varchar h)
  obtain ⟨t, htext, hv⟩ := Option.bind_eq_some_iff.mp h
  obtain rfl := text_eq_some htext
  refine decodes_iff.mpr fun hmem => hs ?_
  simp only [chars_eq] at hv
  split at hv
  · cases hv
    exact hmem
  · split at hv
    · cases hv
      rw [String.toList_ofList] at hmem
      exact List.mem_of_mem_take hmem
    · cases hv

theorem decodes_uuidText (id : Uuid) : decodes (uuidText id) = true := by
  have hhex : Char.ofNat 0 ∉ uuidHex id := by
    intro hmem
    obtain ⟨d, hd, hnul⟩ := mem_uuidHex hmem
    have hdigit : ∀ d < 16, Char.ofNat 0 ≠ Nat.digitChar d := by decide
    exact hdigit d hd hnul
  have hdrop : ∀ k, Char.ofNat 0 ∉ (uuidHex id).drop k := fun k h => hhex (List.mem_of_mem_drop h)
  have htake : ∀ j k, Char.ofNat 0 ∉ ((uuidHex id).drop k).take j := fun j k h =>
    hdrop k (List.mem_of_mem_take h)
  have hdash : Char.ofNat 0 ≠ '-' := by decide
  refine decodes_iff.mpr ?_
  rw [uuidText, String.toList_ofList]
  simp only [List.mem_append, List.mem_cons, hdash, htake, hdrop, or_false]
  exact fun h => hhex (List.mem_of_mem_take h)

example : fieldText (.obj [("anomaly_id", .str "1"), ("note", .str "\u0000")]) "anomaly_id" =
    none := by
  decide

example : fieldText (.obj [("anomaly_id", .arr [.int 1, .null])]) "anomaly_id" =
    some (some "[1, null]") := by
  decide

end NexusEngine.JsonFieldText
