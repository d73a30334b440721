import NexusEngine.JsonDocuments
import NexusEngine.CalendarTime
import Mathlib.Algebra.GroupWithZero.Nat

/-!
# What a column stores

The values a service hands to the database are bound to the declared column types. A text
column keeps the text or rejects it, with one exception: a `String(n)` column cuts off an
excess that consists of blanks only. An enumeration column accepts the value or the name of
a member, and reads back as the member.
-/

namespace NexusEngine.StoredColumns

open TextEncodings JsonDocuments CalendarTime

/-! ## Identifiers -/

/-- A 128 bit identifier as a number. -/
abbrev Uuid := ℕ

def uuidHex (id : Uuid) : List Char :=
  let digits := Nat.toDigits 16 id
  List.replicate (32 - digits.length) '0' ++ digits

def uuidText (id : Uuid) : String :=
  let hex := uuidHex id
  String.ofList (hex.take 8 ++ '-' :: ((hex.drop 8).take 4 ++ '-' :: ((hex.drop 12).take 4 ++
    '-' :: ((hex.drop 16).take 4 ++ '-' :: hex.drop 20))))

theorem mem_toDigits_hex {n : ℕ} {c : Char} (h : c ∈ Nat.toDigits 16 n) :
    ∃ d, d < 16 ∧ c = Nat.digitChar d := by
  induction n using Nat.strongRecOn with
  | _ n ih =>
    by_cases hn : n < 16
    · rw [Nat.toDigits_of_lt_base hn, List.mem_singleton] at h
      exact ⟨n, hn, h⟩
    · rw [Nat.toDigits_of_base_le (by decide) (by omega), List.mem_append, List.mem_singleton] at h
      rcases h with h | h
      · exact ih (n / 16) (by omega) h
      · exact ⟨n % 16, Nat.mod_lt n (by decide), h⟩

/-- An identifier is written with hexadecimal digits. -/
theorem mem_uuidHex {id : Uuid} {c : Char} (h : c ∈ uuidHex id) :
    ∃ d, d < 16 ∧ c = Nat.digitChar d := by
  rw [uuidHex, List.mem_append, List.mem_replicate] at h
  rcases h with ⟨-, rfl⟩ | h
  · exact ⟨0, by decide, rfl⟩
  · exact mem_toDigits_hex h

/-- The number that hexadecimal digits write. -/
def hexNumber (digits : List Char) : ℕ :=
  digits.foldl (fun n c => 16 * n + (hexValue c).getD 0) 0

theorem hexValue_digitChar {n : ℕ} (h : n < 16) : hexValue (Nat.digitChar n) = some n := by
  revert n
  decide

theorem hexNumber_toDigits (n : ℕ) : hexNumber (Nat.toDigits 16 n) = n := by
  induction n using Nat.strongRecOn with
  | _ n ih =>
    by_cases h : n < 16
    · rw [Nat.toDigits_of_lt_base h]
      simp [hexNumber, hexValue_digitChar h]
    · have hdigit : hexValue (Nat.digitChar (n % 16)) = some (n % 16) :=
        hexValue_digitChar (Nat.mod_lt n (by decide))
      have hrest : hexNumber (Nat.toDigits 16 (n / 16)) = n / 16 := ih (n / 16) (by omega)
      rw [Nat.toDigits_of_base_le (by decide) (by omega), hexNumber, List.foldl_append,
        ← hexNumber, hrest]
      simp only [List.foldl_cons, List.foldl_nil, hdigit, Option.getD_some]
      omega

theorem hexNumber_uuidHex (id : Uuid) : hexNumber (uuidHex id) = id := by
  have hzeros : ∀ k,
      (List.replicate k '0').foldl (fun n c => 16 * n + (hexValue c).getD 0) 0 = 0 := by
    intro k
    induction k with
    | zero => rfl
    | succ k ih => exact ih
  rw [uuidHex, hexNumber, List.foldl_append, hzeros]
  exact hexNumber_toDigits id

/-- The dashes stand at fixed places, so that the text determines the identifier. -/
theorem uuidText_injective : Function.Injective uuidText := by
  have length : ∀ id, 32 ≤ (uuidHex id).length := by
    intro id
    simp only [uuidHex, List.length_append, List.length_replicate]
    omega
  intro a b h
  have ha := length a
  have hb := length b
  have hlist := String.ofList_injective h
  obtain ⟨h₁, hlist⟩ := List.append_inj hlist (by simp only [List.length_take]; omega)
  obtain ⟨h₂, hlist⟩ := List.append_inj (List.cons.inj hlist).2
    (by simp only [List.length_take, List.length_drop]; omega)
  obtain ⟨h₃, hlist⟩ := List.append_inj (List.cons.inj hlist).2
    (by simp only [List.length_take, List.length_drop]; omega)
  obtain ⟨h₄, hlist⟩ := List.append_inj (List.cons.inj hlist).2
    (by simp only [List.length_take, List.length_drop]; omega)
  have h₅ := (List.cons.inj hlist).2
  have split : ∀ hex : List Char, hex.take 8 ++ ((hex.drop 8).take 4 ++ ((hex.drop 12).take 4 ++
      ((hex.drop 16).take 4 ++ hex.drop 20))) = hex := by
    intro hex
    have h16 : (hex.drop 16).take 4 ++ hex.drop 20 = hex.drop 16 := by
      simpa using List.take_append_drop 4 (hex.drop 16)
    have h12 : (hex.drop 12).take 4 ++ hex.drop 16 = hex.drop 12 := by
      simpa using List.take_append_drop 4 (hex.drop 12)
    have h8 : (hex.drop 8).take 4 ++ hex.drop 12 = hex.drop 8 := by
      simpa using List.take_append_drop 4 (hex.drop 8)
    rw [h16, h12, h8, List.take_append_drop]
  have hhex : uuidHex a = uuidHex b := by
    rw [← split (uuidHex a), ← split (uuidHex b), h₁, h₂, h₃, h₄, h₅]
  simpa [hexNumber_uuidHex] using congrArg hexNumber hhex

def natText (n : ℕ) : String := String.ofList (Nat.toDigits 10 n)

/-! ## Text columns -/

/-- PostgreSQL text holds no NUL character. -/
def text (s : String) : Option String :=
  if (chars s).contains (Char.ofNat 0) then none else some s

/-- A `String(n)` column. -/
def varchar (n : ℕ) (s : String) : Option String :=
  (text s).bind fun s =>
    if (chars s).length ≤ n then some s
    else if ((chars s).drop n).all (· == ' ') then some (String.ofList ((chars s).take n))
    else none

def nullable {α : Type} (column : α → Option α) : Option α → Option (Option α)
  | none => some none
  | some a => (column a).map some

def json (v : Json) : Option Json := if isStandard v then some v else none

theorem text_eq_some {s s' : String} (h : text s = some s') : s' = s := by
  unfold text at h
  split at h <;> simp_all

theorem json_eq_some {v v' : Json} (h : json v = some v') : v' = v := by
  unfold json at h
  split at h <;> simp_all

/-- What a `String(n)` column stores fits. -/
theorem varchar_length {n : ℕ} {s s' : String} (h : varchar n s = some s') :
    s'.toList.length ≤ n := by
  obtain ⟨t, -, hv⟩ := Option.bind_eq_some_iff.mp h
  simp only [chars_eq] at hv
  split at hv
  · next hle =>
    cases hv
    exact hle
  · split at hv
    · cases hv
      simp
    · cases hv

/-- A text that fits is stored as it is. -/
theorem varchar_of_length_le {n : ℕ} {s s' : String} (h : varchar n s = some s')
    (hle : s.toList.length ≤ n) : s' = s := by
  obtain ⟨t, ht, hv⟩ := Option.bind_eq_some_iff.mp h
  obtain rfl := text_eq_some ht
  rw [chars_eq, if_pos hle] at hv
  cases hv
  rfl

/-- Only blanks are cut off. -/
theorem varchar_eq_or_cut {n : ℕ} {s s' : String} (h : varchar n s = some s') :
    s' = s ∨ s.toList.drop n ≠ [] ∧ ∀ c ∈ s.toList.drop n, c = ' ' := by
  by_cases hle : s.toList.length ≤ n
  · exact .inl (varchar_of_length_le h hle)
  · obtain ⟨t, ht, hv⟩ := Option.bind_eq_some_iff.mp h
    obtain rfl := text_eq_some ht
    rw [chars_eq, if_neg hle] at hv
    split at hv
    · next hblank =>
      have hne : t.toList.drop n ≠ [] := by simpa using hle
      exact .inr ⟨hne, fun c hc => by simpa using List.all_eq_true.mp hblank c hc⟩
    · cases hv

/-- Only a text with blanks is stored as another one. -/
theorem varchar_eq_or_blank {n : ℕ} {s s' : String} (h : varchar n s = some s') :
    s' = s ∨ ' ' ∈ s.toList := by
  rcases varchar_eq_or_cut h with hsame | ⟨hne, hblank⟩
  · exact .inl hsame
  · obtain ⟨c, hc⟩ := List.exists_mem_of_ne_nil _ hne
    exact .inr (hblank c hc ▸ List.mem_of_mem_drop hc)

/-- What a `String(n)` column stores is text. -/
theorem text_varchar {n : ℕ} {s s' : String} (h : varchar n s = some s') : text s' = some s' := by
  obtain ⟨t, ht, hv⟩ := Option.bind_eq_some_iff.mp h
  obtain rfl := text_eq_some ht
  have hfree : Char.ofNat 0 ∉ t.toList := by
    intro hmem
    rw [text, chars_eq, if_pos (List.contains_iff_mem.mpr hmem)] at ht
    cases ht
  have htext : ∀ u : String, u.toList ⊆ t.toList → text u = some u := by
    intro u hu
    rw [text, chars_eq, if_neg fun hmem => hfree (hu (List.contains_iff_mem.mp hmem))]
  simp only [chars_eq] at hv
  split at hv
  · cases hv
    exact ht
  · split at hv
    · cases hv
      exact htext _ (by simpa using List.take_subset n t.toList)
    · cases hv

/-! ## Stored again -/

theorem varchar_stored {n : ℕ} {s s' : String} (h : varchar n s = some s') :
    varchar n s' = some s' := by
  have hlength := varchar_length h
  rw [varchar, text_varchar h, Option.bind_some, chars_eq, if_pos hlength]

theorem nullable_stored {n : ℕ} {s s' : Option String} (h : nullable (varchar n) s = some s') :
    nullable (varchar n) s' = some s' := by
  cases s with
  | none =>
    cases h
    rfl
  | some s =>
    obtain ⟨t, ht, rfl⟩ := Option.map_eq_some_iff.mp h
    simp [nullable, varchar_stored ht]

/-- A text that fits is stored as it is where it is stored at all. -/
theorem nullable_of_length_le {n : ℕ} {s : Option String} (h : (nullable (varchar n) s).isSome)
    (hle : ∀ t, s = some t → t.toList.length ≤ n) : nullable (varchar n) s = some s := by
  cases s with
  | none => rfl
  | some t =>
    obtain ⟨stored, hstored⟩ := Option.isSome_iff_exists.mp h
    obtain ⟨t', ht', -⟩ := Option.map_eq_some_iff.mp hstored
    have hsame : t' = t := varchar_of_length_le ht' (hle t rfl)
    rw [nullable, ht', hsame, Option.map_some]

theorem json_isStandard {v v' : Json} (h : json v = some v') : isStandard v = true := by
  unfold json at h
  split at h
  · assumption
  · cases h

/-! ## Texts that are made of others -/

theorem text_iff {s : String} : text s = some s ↔ Char.ofNat 0 ∉ s.toList := by
  rw [text, chars_eq, List.contains_eq_mem]
  by_cases h : Char.ofNat 0 ∈ s.toList
  · simp [h]
  · simp [h]

theorem text_append {s t : String} (hs : text s = some s) (ht : text t = some t) :
    text (s ++ t) = some (s ++ t) := by
  rw [text_iff] at hs ht ⊢
  rw [String.toList_append, List.mem_append]
  exact not_or.mpr ⟨hs, ht⟩

/-- A text that fits is accepted. -/
theorem varchar_of_text {n : ℕ} {s : String} (h : text s = some s) (hle : s.toList.length ≤ n) :
    varchar n s = some s := by
  rw [varchar, h, Option.bind_some, chars_eq, if_pos hle]

theorem text_natText (n : ℕ) : text (natText n) = some (natText n) := by
  rw [text_iff, natText, String.toList_ofList]
  intro hmem
  exact absurd (Nat.isDigit_of_mem_toDigits (by decide) (by decide) hmem) (by decide)

theorem natText_length {n k : ℕ} (hk : 0 < k) (h : n < 10 ^ k) :
    (natText n).toList.length ≤ k := by
  rw [natText, String.toList_ofList]
  exact (Nat.length_toDigits_le_iff (by decide) hk).mpr h

/-! ## Enumeration columns -/

/-- The members of an enumeration, with the text each one stands for. -/
structure EnumColumn (α : Type) where
  members : List α
  value : α → String
  name : α → String

/-- Bind a text to the member it is the value or the name of. -/
def EnumColumn.bind {α : Type} (column : EnumColumn α) (s : String) : Option α :=
  column.members.find? fun m => column.value m == s || column.name m == s

/-! ## Updates -/

/-- An update sends the columns of an object whose value is no longer the loaded one. -/
def changed {α : Type} [DecidableEq α] (old new : α) : Option α :=
  if old = new then none else some new

@[simp] theorem changed_getD {α : Type} [DecidableEq α] (old new : α) :
    (changed old new).getD old = new := by
  unfold changed
  split
  · next h => simp [h]
  · rfl

end NexusEngine.StoredColumns
