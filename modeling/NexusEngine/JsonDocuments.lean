import NexusEngine.TextEncodings
import Mathlib.Data.List.Sort

/-!
# JSON documents and their compact text

`dumps` is the compact ASCII text of a document with the keys of every object sorted. It
determines the document up to the order of keys: `render` is a prefix code on documents, so
that two texts agree only where the documents do.
-/

namespace NexusEngine.JsonDocuments

open TextEncodings

/-- The shortest text of a finite floating point number. It has a point or an exponent,
which an integer has not. -/
structure FloatText where
  text : List Char
  isFloat : (text.all (fun c => c.isDigit || ['.', 'e', '+', '-'].contains c) &&
    text.any fun c => c == '.' || c == 'e') = true
  deriving DecidableEq

inductive NonFinite where
  | nan | infinity | negativeInfinity
  deriving DecidableEq, Repr

/-- A document. An object lists its items in insertion order. -/
inductive Json where
  | null
  | bool (b : Bool)
  | int (n : ℤ)
  | float (x : FloatText)
  | nonfinite (x : NonFinite)
  | str (s : String)
  | arr (items : List Json)
  | obj (members : List (String × Json))

/-- Induction over documents, with the hypothesis for every member of a container. -/
theorem Json.induct {P : Json → Prop} (null : P .null) (bool : ∀ b, P (.bool b))
    (int : ∀ n, P (.int n)) (float : ∀ x, P (.float x)) (nonfinite : ∀ x, P (.nonfinite x))
    (str : ∀ s, P (.str s)) (arr : ∀ vs, (∀ v ∈ vs, P v) → P (.arr vs))
    (obj : ∀ kvs, (∀ kv ∈ kvs, P kv.2) → P (.obj kvs)) (v : Json) : P v :=
  @Json.rec P (fun vs => ∀ v ∈ vs, P v) (fun kvs => ∀ kv ∈ kvs, P kv.2) (fun kv => P kv.2)
    null bool int float nonfinite str (fun vs h => arr vs h) (fun kvs h => obj kvs h)
    (fun _ h => nomatch h)
    (fun _ _ hv hvs _ h => by
      rcases List.mem_cons.mp h with rfl | h
      · exact hv
      · exact hvs _ h)
    (fun _ h => nomatch h)
    (fun _ _ hkv hkvs _ h => by
      rcases List.mem_cons.mp h with rfl | h
      · exact hkv
      · exact hkvs _ h)
    (fun _ _ h => h) v

/-! ## Text -/

def hex4 (n : ℕ) : List Char :=
  [hexDigit (n / 4096 % 16), hexDigit (n / 256 % 16), hexDigit (n / 16 % 16), hexDigit (n % 16)]

/-- Printable ASCII without the quote and the backslash. -/
def isPlain (c : Char) : Bool :=
  Nat.ble 32 c.toNat && Nat.ble c.toNat 126 && !(c.toNat == 34) && !(c.toNat == 92)

/-- One character of a string. What is not plain has a short escape or is written in code
units. -/
def escapeChar (c : Char) : List Char :=
  if isPlain c then [c]
  else if c = '"' then ['\\', '"']
  else if c = '\\' then ['\\', '\\']
  else if c = '\n' then ['\\', 'n']
  else if c = '\r' then ['\\', 'r']
  else if c = '\t' then ['\\', 't']
  else if c = Char.ofNat 12 then ['\\', 'f']
  else if c = Char.ofNat 8 then ['\\', 'b']
  else if c.toNat < 0x10000 then '\\' :: 'u' :: hex4 c.toNat
  else
    '\\' :: 'u' :: (hex4 (0xd800 + (c.toNat - 0x10000) / 1024) ++
      '\\' :: 'u' :: hex4 (0xdc00 + (c.toNat - 0x10000) % 1024))

def stringText (s : String) : List Char := '"' :: ((chars s).flatMap escapeChar ++ ['"'])

def intText (n : ℤ) : List Char :=
  if n < 0 then '-' :: Nat.toDigits 10 n.natAbs else Nat.toDigits 10 n.natAbs

def NonFinite.text : NonFinite → List Char
  | .nan => ['N', 'a', 'N']
  | .infinity => ['I', 'n', 'f', 'i', 'n', 'i', 't', 'y']
  | .negativeInfinity => ['-', 'I', 'n', 'f', 'i', 'n', 'i', 't', 'y']

def separated (texts : List (List Char)) : List Char := (texts.flatMap (',' :: ·)).drop 1

mutual

def render : Json → List Char
  | .null => ['n', 'u', 'l', 'l']
  | .bool true => ['t', 'r', 'u', 'e']
  | .bool false => ['f', 'a', 'l', 's', 'e']
  | .int n => intText n
  | .float x => x.text
  | .nonfinite x => x.text
  | .str s => stringText s
  | .arr vs => '[' :: (separated (renderItems vs) ++ [']'])
  | .obj kvs => '{' :: (separated (renderMembers kvs) ++ ['}'])
termination_by structural v => v

def renderItems : List Json → List (List Char)
  | [] => []
  | v :: vs => render v :: renderItems vs
termination_by structural vs => vs

def renderMembers : List (String × Json) → List (List Char)
  | [] => []
  | kv :: kvs => renderMember kv :: renderMembers kvs
termination_by structural kvs => kvs

def renderMember : String × Json → List Char
  | (k, v) => stringText k ++ ':' :: render v
termination_by structural kv => kv

end

/-- Keys are ordered by code points. -/
def keyLe : List Char → List Char → Bool
  | [], _ => true
  | _ :: _, [] => false
  | c :: cs, d :: ds => decide (c < d) || (decide (c = d) && keyLe cs ds)

def sortMembers (kvs : List (String × Json)) : List (String × Json) :=
  kvs.insertionSort fun a b => keyLe (chars a.1) (chars b.1)

mutual

/-- Sort the keys of every object. Two documents are equal up to key order when they agree
after it. -/
def sortKeys : Json → Json
  | .arr vs => .arr (sortKeysItems vs)
  | .obj kvs => .obj (sortMembers (sortKeysMembers kvs))
  | v => v
termination_by structural v => v

def sortKeysItems : List Json → List Json
  | [] => []
  | v :: vs => sortKeys v :: sortKeysItems vs
termination_by structural vs => vs

def sortKeysMembers : List (String × Json) → List (String × Json)
  | [] => []
  | kv :: kvs => sortKeysMember kv :: sortKeysMembers kvs
termination_by structural kvs => kvs

def sortKeysMember : String × Json → String × Json
  | (k, v) => (k, sortKeys v)
termination_by structural kv => kv

end

/-- Compact text with sorted keys, in ASCII. -/
def dumps (v : Json) : List Char := render (sortKeys v)

mutual

/-- No number in the document is NaN or infinite, which JSON proper has no text for. -/
def isStandard : Json → Bool
  | .nonfinite _ => false
  | .arr vs => isStandardItems vs
  | .obj kvs => isStandardMembers kvs
  | _ => true
termination_by structural v => v

def isStandardItems : List Json → Bool
  | [] => true
  | v :: vs => isStandard v && isStandardItems vs
termination_by structural vs => vs

def isStandardMembers : List (String × Json) → Bool
  | [] => true
  | kv :: kvs => isStandardMember kv && isStandardMembers kvs
termination_by structural kvs => kvs

def isStandardMember : String × Json → Bool
  | (_, v) => isStandard v
termination_by structural kv => kv

end

theorem renderItems_eq_map (vs : List Json) : renderItems vs = vs.map render := by
  induction vs with
  | nil => rfl
  | cons v vs ih => simp [renderItems, ih]

theorem renderMembers_eq_map (kvs : List (String × Json)) :
    renderMembers kvs = kvs.map fun kv => stringText kv.1 ++ ':' :: render kv.2 := by
  induction kvs with
  | nil => rfl
  | cons kv kvs ih =>
    obtain ⟨k, v⟩ := kv
    simp [renderMembers, renderMember, ih]

/-! ## Strings are read back -/

def hex4Value : List Char → Option ℕ
  | [a, b, c, d] =>
    match hexValue a, hexValue b, hexValue c, hexValue d with
    | some a, some b, some c, some d => some (a * 4096 + b * 256 + c * 16 + d)
    | _, _, _, _ => none
  | _ => none

/-- Read one character of a string literal. -/
def readChar : List Char → Option (Char × List Char)
  | '\\' :: 'u' :: a :: b :: c :: d :: rest =>
    match hex4Value [a, b, c, d] with
    | none => none
    | some n =>
      if n < 0xd800 ∨ 0xe000 ≤ n then some (Char.ofNat n, rest)
      else
        match rest with
        | '\\' :: 'u' :: e :: f :: g :: h :: rest' =>
          (hex4Value [e, f, g, h]).map fun m =>
            (Char.ofNat (0x10000 + (n - 0xd800) * 1024 + (m - 0xdc00)), rest')
        | _ => none
  | '\\' :: 'n' :: rest => some ('\n', rest)
  | '\\' :: 'r' :: rest => some ('\r', rest)
  | '\\' :: 't' :: rest => some ('\t', rest)
  | '\\' :: 'f' :: rest => some (Char.ofNat 12, rest)
  | '\\' :: 'b' :: rest => some (Char.ofNat 8, rest)
  | '\\' :: c :: rest => some (c, rest)
  | c :: rest => some (c, rest)
  | [] => none

theorem hex4Value_hex4 {n : ℕ} (h : n < 65536) : hex4Value (hex4 n) = some n := by
  have hdigit : ∀ m, hexValue (hexDigit (m % 16)) = some (m % 16) :=
    fun m => hexValue_hexDigit (Nat.mod_lt m (by decide))
  simp only [hex4, hex4Value, hdigit]
  congr 1
  omega

theorem char_not_surrogate (c : Char) : c.toNat < 0xd800 ∨ 0xe000 ≤ c.toNat := by
  rcases c.valid with h | h
  · exact .inl h
  · exact .inr h.1

theorem char_lt (c : Char) : c.toNat < 0x110000 := by
  rcases c.valid with h | h
  · exact Nat.lt_trans h (by decide)
  · exact h.2

theorem isPlain_ne {c : Char} (h : isPlain c = true) : c ≠ '"' ∧ c ≠ '\\' := by
  constructor <;> rintro rfl <;> exact absurd h (by decide)

theorem readChar_escapeChar (c : Char) (rest : List Char) :
    readChar (escapeChar c ++ rest) = some (c, rest) := by
  unfold escapeChar
  split
  · next hplain =>
    have hslash := (isPlain_ne hplain).2
    simp only [List.cons_append, List.nil_append]
    rw [readChar.eq_def]
    split <;> simp_all
  split
  · subst_vars; rfl
  split
  · subst_vars; rfl
  split
  · subst_vars; rfl
  split
  · subst_vars; rfl
  split
  · subst_vars; rfl
  split
  · subst_vars; rfl
  split
  · subst_vars; rfl
  split
  · next hlt =>
    have hread := hex4Value_hex4 (n := c.toNat) hlt
    simp only [hex4] at hread
    simp only [hex4, List.cons_append, List.nil_append, readChar, hread]
    rw [if_pos (char_not_surrogate c), Char.ofNat_toNat]
  · next hge =>
    have hlt := char_lt c
    have hhigh := hex4Value_hex4 (n := 0xd800 + (c.toNat - 0x10000) / 1024) (by omega)
    have hlow := hex4Value_hex4 (n := 0xdc00 + (c.toNat - 0x10000) % 1024) (by omega)
    have hvalue : 0x10000 + (0xd800 + (c.toNat - 0x10000) / 1024 - 0xd800) * 1024 +
        (0xdc00 + (c.toNat - 0x10000) % 1024 - 0xdc00) = c.toNat := by omega
    simp only [hex4] at hhigh hlow
    simp only [hex4, List.cons_append, List.nil_append, readChar, hhigh, hlow]
    rw [if_neg (by omega)]
    simp only [Option.map_some, hvalue, Char.ofNat_toNat]

theorem escapeChar_head (c : Char) : ∃ d ds, escapeChar c = d :: ds ∧ d ≠ '"' := by
  unfold escapeChar
  split
  · next hplain => exact ⟨_, _, rfl, (isPlain_ne hplain).1⟩
  split
  · exact ⟨_, _, rfl, by decide⟩
  split
  · exact ⟨_, _, rfl, by decide⟩
  split
  · exact ⟨_, _, rfl, by decide⟩
  split
  · exact ⟨_, _, rfl, by decide⟩
  split
  · exact ⟨_, _, rfl, by decide⟩
  split
  · exact ⟨_, _, rfl, by decide⟩
  split
  · exact ⟨_, _, rfl, by decide⟩
  split
  · exact ⟨_, _, rfl, by decide⟩
  · exact ⟨_, _, rfl, by decide⟩

theorem escaped_append_inj {cs cs' rest rest' : List Char}
    (h : cs.flatMap escapeChar ++ '"' :: rest = cs'.flatMap escapeChar ++ '"' :: rest') :
    cs = cs' ∧ rest = rest' := by
  induction cs generalizing cs' with
  | nil =>
    cases cs' with
    | nil => simpa using h
    | cons c' cs' =>
      obtain ⟨d, ds, hd, hne⟩ := escapeChar_head c'
      simp only [List.flatMap_nil, List.flatMap_cons, hd, List.nil_append, List.cons_append,
        List.cons.injEq] at h
      exact absurd h.1.symm hne
  | cons c cs ih =>
    cases cs' with
    | nil =>
      obtain ⟨d, ds, hd, hne⟩ := escapeChar_head c
      simp only [List.flatMap_nil, List.flatMap_cons, hd, List.nil_append, List.cons_append,
        List.cons.injEq] at h
      exact absurd h.1 hne
    | cons c' cs' =>
      have hread := congrArg readChar h
      simp only [List.flatMap_cons, List.append_assoc, readChar_escapeChar, Option.some.injEq,
        Prod.mk.injEq] at hread
      obtain ⟨rfl, htail⟩ := hread
      obtain ⟨rfl, hrest⟩ := ih htail
      exact ⟨rfl, hrest⟩

theorem stringText_append_inj {s s' : String} {rest rest' : List Char}
    (h : stringText s ++ rest = stringText s' ++ rest') : s = s' ∧ rest = rest' := by
  simp only [stringText, List.cons_append, List.append_assoc, List.nil_append,
    List.cons.injEq, true_and] at h
  obtain ⟨hchars, hrest⟩ := escaped_append_inj h
  exact ⟨String.toList_injective (by simpa using hchars), hrest⟩

/-! ## Words end at a delimiter -/

def isDelimiter (c : Char) : Bool := c == ',' || c == ']' || c == '}'

/-- What may follow a document. -/
def Delimited : List Char → Prop
  | [] => True
  | c :: _ => isDelimiter c = true

theorem word_append_inj {w w' rest rest' : List Char} (hw : w.all (fun c => !isDelimiter c))
    (hw' : w'.all fun c => !isDelimiter c) (hd : Delimited rest) (hd' : Delimited rest')
    (h : w ++ rest = w' ++ rest') : w = w' ∧ rest = rest' := by
  induction w generalizing w' with
  | nil =>
    cases w' with
    | nil => exact ⟨rfl, h⟩
    | cons c w' =>
      subst h
      simp_all [Delimited]
  | cons c w ih =>
    cases w' with
    | nil =>
      simp only [List.nil_append] at h
      subst h
      simp_all [Delimited]
    | cons c' w' =>
      simp only [List.cons_append, List.cons.injEq] at h
      simp only [List.all_cons, Bool.and_eq_true] at hw hw'
      obtain ⟨rfl, hrest⟩ := ih hw.2 hw'.2 h.2
      exact ⟨by rw [h.1], hrest⟩

/-- The text of a document that is neither a string nor a container. -/
def word : Json → Option (List Char)
  | .null => some ['n', 'u', 'l', 'l']
  | .bool true => some ['t', 'r', 'u', 'e']
  | .bool false => some ['f', 'a', 'l', 's', 'e']
  | .int n => some (intText n)
  | .float x => some x.text
  | .nonfinite x => some x.text
  | _ => none

theorem intText_injective : Function.Injective intText := by
  have hdigits : ∀ {m n : ℕ}, Nat.toDigits 10 m = Nat.toDigits 10 n → m = n := fun h => by
    simpa [Nat.ofDigitChars_ten_toDigits] using congrArg (Nat.ofDigitChars 10 · 0) h
  have hsign : ∀ {m n : ℕ}, '-' :: Nat.toDigits 10 m ≠ Nat.toDigits 10 n := fun {m n} h => by
    have hmem : '-' ∈ Nat.toDigits 10 n := h ▸ List.mem_cons_self
    exact absurd (Nat.isDigit_of_mem_toDigits (by decide) (by decide) hmem) (by decide)
  intro m n h
  unfold intText at h
  split at h <;> split at h
  · have := hdigits (List.cons.inj h).2
    omega
  · exact absurd h hsign
  · exact absurd h.symm hsign
  · have := hdigits h
    omega

theorem intText_all (n : ℤ) : (intText n).all (fun c => c.isDigit || c == '-') := by
  have hdigits : ∀ c ∈ Nat.toDigits 10 n.natAbs, c.isDigit = true :=
    fun c hc => Nat.isDigit_of_mem_toDigits (by decide) (by decide) hc
  rw [List.all_eq_true]
  intro c hc
  unfold intText at hc
  split at hc
  · rcases List.mem_cons.mp hc with rfl | hc
    · rfl
    · simp [hdigits c hc]
  · simp [hdigits c hc]

def isNumberChar (c : Char) : Bool := c.isDigit || ['.', 'e', '+', '-'].contains c

/-- The six words that are not numbers. -/
def literal : Json → Option (List Char)
  | .null => some ['n', 'u', 'l', 'l']
  | .bool true => some ['t', 'r', 'u', 'e']
  | .bool false => some ['f', 'a', 'l', 's', 'e']
  | .nonfinite x => some x.text
  | _ => none

theorem literal_injective {v w : Json} {t : List Char} (hv : literal v = some t)
    (hw : literal w = some t) : v = w := by
  rcases v with _ | (_ | _) | _ | _ | (_ | _ | _) | _ | _ | _ <;> cases hv <;>
    rcases w with _ | (_ | _) | _ | _ | (_ | _ | _) | _ | _ | _ <;>
      first | rfl | simp [literal, NonFinite.text] at hw

theorem literal_not_number {v : Json} {t : List Char} (h : literal v = some t) :
    t.all isNumberChar = false := by
  rcases v with _ | (_ | _) | _ | _ | (_ | _ | _) | _ | _ | _ <;>
    simp only [literal, NonFinite.text, Option.some.injEq, reduceCtorEq] at h <;>
      (subst h; decide)

theorem intText_number (n : ℤ) : (intText n).all isNumberChar = true := by
  rw [List.all_eq_true]
  intro c hc
  have hall := List.all_eq_true.mp (intText_all n) c hc
  simp only [Bool.or_eq_true, beq_iff_eq] at hall
  rcases hall with hdigit | rfl
  · simp [isNumberChar, hdigit]
  · decide

theorem float_number (x : FloatText) : x.text.all isNumberChar = true := by
  have h := x.isFloat
  rw [Bool.and_eq_true] at h
  exact h.1

theorem intText_ne_float (n : ℤ) (x : FloatText) : intText n ≠ x.text := by
  intro h
  have hfloat := x.isFloat
  rw [Bool.and_eq_true, List.any_eq_true] at hfloat
  obtain ⟨-, c, hc, hmark⟩ := hfloat
  have hall := List.all_eq_true.mp (intText_all n) c (h ▸ hc)
  simp only [Bool.or_eq_true, beq_iff_eq] at hmark hall
  rcases hmark with rfl | rfl <;> rcases hall with hall | hall <;> revert hall <;> decide

/-- A word is a literal or a number. -/
theorem word_eq (v : Json) : word v = literal v ∨ (∃ n, v = .int n) ∨ ∃ x, v = .float x := by
  rcases v with _ | (_ | _) | n | x | _ | _ | _ | _
  · exact .inl rfl
  · exact .inl rfl
  · exact .inl rfl
  · exact .inr (.inl ⟨n, rfl⟩)
  · exact .inr (.inr ⟨x, rfl⟩)
  · exact .inl rfl
  · exact .inl rfl
  · exact .inl rfl
  · exact .inl rfl

theorem word_injective {v w : Json} {t : List Char} (hv : word v = some t)
    (hw : word w = some t) : v = w := by
  rcases word_eq v with hl | ⟨m, rfl⟩ | ⟨x, rfl⟩ <;>
    rcases word_eq w with hl' | ⟨n, rfl⟩ | ⟨y, rfl⟩
  · exact literal_injective (hl ▸ hv) (hl' ▸ hw)
  · cases hw
    have hnot := literal_not_number (hl ▸ hv)
    rw [intText_number] at hnot
    cases hnot
  · cases hw
    have hnot := literal_not_number (hl ▸ hv)
    rw [float_number] at hnot
    cases hnot
  · cases hv
    have hnot := literal_not_number (hl' ▸ hw)
    rw [intText_number] at hnot
    cases hnot
  · cases hv
    simp only [word, Option.some.injEq] at hw
    rw [intText_injective hw]
  · cases hv
    simp only [word, Option.some.injEq] at hw
    exact absurd hw.symm (intText_ne_float m y)
  · cases hv
    have hnot := literal_not_number (hl' ▸ hw)
    rw [float_number] at hnot
    cases hnot
  · cases hv
    simp only [word, Option.some.injEq] at hw
    exact absurd hw (intText_ne_float n x)
  · cases hv
    simp only [word, Option.some.injEq] at hw
    obtain ⟨y, _⟩ := y
    subst hw
    rfl

theorem word_plain {v : Json} {t : List Char} (h : word v = some t) :
    t.all (fun c => !isDelimiter c) = true ∧
      ∃ c cs, t = c :: cs ∧ c ≠ '"' ∧ c ≠ '[' ∧ c ≠ '{' := by
  have number : ∀ t : List Char, t ≠ [] → t.all isNumberChar = true →
      t.all (fun c => !isDelimiter c) = true ∧
        ∃ c cs, t = c :: cs ∧ c ≠ '"' ∧ c ≠ '[' ∧ c ≠ '{' := by
    intro t hne hall
    have hfree : ∀ c, isNumberChar c = true →
        isDelimiter c = false ∧ c ≠ '"' ∧ c ≠ '[' ∧ c ≠ '{' := by
      intro c hc
      refine ⟨Bool.eq_false_iff.mpr fun hd => ?_, ?_, ?_, ?_⟩
      · simp only [isDelimiter, Bool.or_eq_true, beq_iff_eq] at hd
        rcases hd with (rfl | rfl) | rfl <;> revert hc <;> decide
      all_goals
        rintro rfl
        revert hc
        decide
    obtain ⟨c, cs, rfl⟩ := List.exists_cons_of_ne_nil hne
    rw [List.all_eq_true] at hall
    refine ⟨?_, c, cs, rfl, (hfree c (hall c List.mem_cons_self)).2⟩
    rw [List.all_eq_true]
    exact fun d hd => by simp [(hfree d (hall d hd)).1]
  rcases word_eq v with hl | ⟨n, rfl⟩ | ⟨x, rfl⟩
  · rw [hl] at h
    rcases v with _ | (_ | _) | _ | _ | (_ | _ | _) | _ | _ | _ <;>
      simp only [literal, NonFinite.text, Option.some.injEq, reduceCtorEq] at h <;>
        (subst h; exact ⟨by decide, _, _, rfl, by decide⟩)
  · cases h
    refine number _ ?_ (intText_number n)
    unfold intText
    split
    · simp
    · exact Nat.toDigits_ne_nil
  · cases h
    refine number _ ?_ (float_number x)
    have hfloat := x.isFloat
    intro hnil
    simp [hnil] at hfloat

/-! ## Documents are read back -/

/-- Lists of texts that end at a delimiter, up to the closing bracket. -/
theorem flatMap_comma_inj {α : Type} {f : α → List Char} {close : Char}
    (hclose : isDelimiter close = true) (hcomma : close ≠ ',') {xs ys : List α}
    {rest rest' : List Char}
    (hx : ∀ x ∈ xs, ∀ y rest rest', Delimited rest → Delimited rest' →
      f x ++ rest = f y ++ rest' → x = y ∧ rest = rest')
    (h : (xs.map f).flatMap (',' :: ·) ++ close :: rest =
      (ys.map f).flatMap (',' :: ·) ++ close :: rest') : xs = ys ∧ rest = rest' := by
  have delimited : ∀ (zs : List α) (tail : List Char),
      Delimited ((zs.map f).flatMap (',' :: ·) ++ close :: tail) := by
    intro zs tail
    cases zs with
    | nil => exact hclose
    | cons z zs => rfl
  induction xs generalizing ys with
  | nil =>
    cases ys with
    | nil => simpa using h
    | cons y ys => exact absurd (List.cons.inj h).1 hcomma
  | cons x xs ih =>
    cases ys with
    | nil => exact absurd (List.cons.inj h).1.symm hcomma
    | cons y ys =>
      simp only [List.map_cons, List.flatMap_cons, List.cons_append, List.append_assoc,
        List.cons.injEq, true_and] at h
      obtain ⟨rfl, htail⟩ := hx x List.mem_cons_self y _ _ (delimited xs rest)
        (delimited ys rest') h
      obtain ⟨rfl, hrest⟩ := ih (fun z hz => hx z (List.mem_cons_of_mem _ hz)) htail
      exact ⟨rfl, hrest⟩

theorem separated_inj {α : Type} {f : α → List Char} {close : Char}
    (hclose : isDelimiter close = true) (hcomma : close ≠ ',') {xs ys : List α}
    {rest rest' : List Char} (hhead : ∀ x, (f x).head? ≠ some close ∧ f x ≠ [])
    (hx : ∀ x ∈ xs, ∀ y rest rest', Delimited rest → Delimited rest' →
      f x ++ rest = f y ++ rest' → x = y ∧ rest = rest')
    (h : separated (xs.map f) ++ close :: rest = separated (ys.map f) ++ close :: rest') :
    xs = ys ∧ rest = rest' := by
  have nonempty : ∀ (z : α) (zs : List α) (tail tail' : List Char),
      separated ((z :: zs).map f) ++ tail ≠ close :: tail' := by
    intro z zs tail tail' heq
    obtain ⟨hne, hcons⟩ := hhead z
    obtain ⟨c, cs, hc⟩ := List.exists_cons_of_ne_nil hcons
    simp only [separated, List.map_cons, List.flatMap_cons, List.cons_append, List.drop_succ_cons,
      List.drop_zero, hc, List.cons.injEq] at heq
    simp [hc, heq.1] at hne
  cases xs with
  | nil =>
    cases ys with
    | nil => simpa [separated] using h
    | cons y ys => exact absurd h.symm (nonempty y ys _ _)
  | cons x xs =>
    cases ys with
    | nil => exact absurd h (nonempty x xs _ _)
    | cons y ys =>
      refine flatMap_comma_inj hclose hcomma hx ?_
      simp only [separated, List.map_cons, List.flatMap_cons, List.cons_append,
        List.drop_succ_cons, List.drop_zero] at h ⊢
      rw [h]

theorem render_word {v : Json} {t : List Char} (h : word v = some t) : render v = t := by
  rcases v with _ | (_ | _) | _ | _ | _ | _ | _ | _ <;> cases h <;> rfl

/-- The four ways a text begins. -/
theorem render_shape (v : Json) :
    (∃ t, word v = some t ∧ render v = t) ∨ (∃ s, v = .str s) ∨ (∃ vs, v = .arr vs) ∨
      ∃ kvs, v = .obj kvs := by
  rcases v with _ | (_ | _) | _ | _ | _ | s | vs | kvs
  all_goals first
    | exact .inl ⟨_, rfl, rfl⟩
    | exact .inr (.inl ⟨_, rfl⟩)
    | exact .inr (.inr (.inl ⟨_, rfl⟩))
    | exact .inr (.inr (.inr ⟨_, rfl⟩))

theorem render_head (v : Json) : ∃ c cs, render v = c :: cs ∧ isDelimiter c = false ∧
    ((∃ t, word v = some t) ↔ c ≠ '"' ∧ c ≠ '[' ∧ c ≠ '{') := by
  rcases render_shape v with ⟨t, hw, hr⟩ | ⟨s, rfl⟩ | ⟨vs, rfl⟩ | ⟨kvs, rfl⟩
  · obtain ⟨hall, c, cs, rfl, hne⟩ := word_plain hw
    simp only [List.all_cons, Bool.and_eq_true, Bool.not_eq_true'] at hall
    exact ⟨c, cs, hr, hall.1, fun _ => hne, fun _ => ⟨_, hw⟩⟩
  · exact ⟨'"', _, rfl, rfl, by simp [word]⟩
  · exact ⟨'[', _, rfl, rfl, by simp [word]⟩
  · exact ⟨'{', _, rfl, rfl, by simp [word]⟩

private theorem render_heads {v w : Json} {rest rest' : List Char}
    (h : render v ++ rest = render w ++ rest') :
    (∃ t, word v = some t) ↔ ∃ t, word w = some t := by
  obtain ⟨c, cs, hv, -, hkind⟩ := render_head v
  obtain ⟨c', cs', hw, -, hkind'⟩ := render_head w
  rw [hv, hw, List.cons_append, List.cons_append, List.cons.injEq] at h
  rw [hkind, hkind', h.1]

private theorem word_case {v w : Json} {t rest rest' : List Char} (hv : word v = some t)
    (hd : Delimited rest) (hd' : Delimited rest')
    (h : render v ++ rest = render w ++ rest') : v = w ∧ rest = rest' := by
  obtain ⟨t', hw⟩ := (render_heads h).mp ⟨t, hv⟩
  rw [render_word hv, render_word hw] at h
  obtain ⟨rfl, hrest⟩ := word_append_inj (word_plain hv).1 (word_plain hw).1 hd hd' h
  exact ⟨word_injective hv hw, hrest⟩

/-- The text of a document ends where the document does. -/
theorem render_append_inj (v : Json) : ∀ w rest rest', Delimited rest → Delimited rest' →
    render v ++ rest = render w ++ rest' → v = w ∧ rest = rest' := by
  induction v using Json.induct with
  | null => exact fun w rest rest' hd hd' h => word_case rfl hd hd' h
  | bool b => cases b <;> exact fun w rest rest' hd hd' h => word_case rfl hd hd' h
  | int n => exact fun w rest rest' hd hd' h => word_case rfl hd hd' h
  | float x => exact fun w rest rest' hd hd' h => word_case rfl hd hd' h
  | nonfinite x => exact fun w rest rest' hd hd' h => word_case rfl hd hd' h
  | str s =>
    intro w rest rest' _ _ h
    rcases render_shape w with ⟨t, hw, -⟩ | ⟨s', rfl⟩ | ⟨vs, rfl⟩ | ⟨kvs, rfl⟩
    · obtain ⟨_, hno⟩ := (render_heads h).mpr ⟨t, hw⟩
      cases hno
    · obtain ⟨rfl, hrest⟩ := stringText_append_inj h
      exact ⟨rfl, hrest⟩
    · exact absurd (List.cons.inj h).1 (by decide)
    · exact absurd (List.cons.inj h).1 (by decide)
  | arr vs ih =>
    intro w rest rest' _ _ h
    rcases render_shape w with ⟨t, hw, -⟩ | ⟨s', rfl⟩ | ⟨ws, rfl⟩ | ⟨kvs, rfl⟩
    · obtain ⟨_, hno⟩ := (render_heads h).mpr ⟨t, hw⟩
      cases hno
    · exact absurd (List.cons.inj h).1 (by decide)
    · have hhead : ∀ v, (render v).head? ≠ some ']' ∧ render v ≠ [] := by
        intro v
        obtain ⟨c, cs, hv, hc, -⟩ := render_head v
        refine ⟨fun heq => ?_, by simp [hv]⟩
        simp only [hv, List.head?_cons, Option.some.injEq] at heq
        subst heq
        exact absurd hc (by decide)
      simp only [render, renderItems_eq_map, List.cons_append, List.append_assoc,
        List.nil_append, List.cons.injEq, true_and] at h
      obtain ⟨rfl, hrest⟩ := separated_inj rfl (by decide) hhead ih h
      exact ⟨rfl, hrest⟩
    · exact absurd (List.cons.inj h).1 (by decide)
  | obj kvs ih =>
    intro w rest rest' _ _ h
    rcases render_shape w with ⟨t, hw, -⟩ | ⟨s', rfl⟩ | ⟨ws, rfl⟩ | ⟨kvs', rfl⟩
    · obtain ⟨_, hno⟩ := (render_heads h).mpr ⟨t, hw⟩
      cases hno
    · exact absurd (List.cons.inj h).1 (by decide)
    · exact absurd (List.cons.inj h).1 (by decide)
    · have hmember : ∀ kv ∈ kvs, ∀ (kv' : String × Json) rest rest', Delimited rest →
          Delimited rest' → (stringText kv.1 ++ ':' :: render kv.2) ++ rest =
            (stringText kv'.1 ++ ':' :: render kv'.2) ++ rest' → kv = kv' ∧ rest = rest' := by
        intro kv hkv kv' rest rest' hd hd' heq
        rw [List.append_assoc, List.append_assoc] at heq
        obtain ⟨hkey, htail⟩ := stringText_append_inj heq
        obtain ⟨hvalue, hrest⟩ := ih kv hkv kv'.2 rest rest' hd hd' (List.cons.inj htail).2
        exact ⟨Prod.ext hkey hvalue, hrest⟩
      simp only [render, renderMembers_eq_map, List.cons_append, List.append_assoc,
        List.nil_append, List.cons.injEq, true_and] at h
      obtain ⟨rfl, hrest⟩ := separated_inj rfl (by decide)
        (fun kv => ⟨by simp [stringText], by simp [stringText]⟩) hmember h
      exact ⟨rfl, hrest⟩

theorem render_injective : Function.Injective render := by
  intro v w h
  exact (render_append_inj v w [] [] trivial trivial (by simpa using h)).1

instance : DecidableEq Json := fun v w =>
  decidable_of_iff (render v = render w) ⟨fun h => render_injective h, congrArg render⟩

/-- Two documents with the same canonical text are equal up to key order. -/
theorem dumps_eq_iff (v w : Json) : dumps v = dumps w ↔ sortKeys v = sortKeys w :=
  ⟨fun h => render_injective h, congrArg render⟩

theorem sortKeysMembers_eq_map (kvs : List (String × Json)) :
    sortKeysMembers kvs = kvs.map fun kv => (kv.1, sortKeys kv.2) := by
  induction kvs with
  | nil => rfl
  | cons kv kvs ih =>
    obtain ⟨k, v⟩ := kv
    simp [sortKeysMembers, sortKeysMember, ih]

theorem sortKeysItems_eq_map (vs : List Json) : sortKeysItems vs = vs.map sortKeys := by
  induction vs with
  | nil => rfl
  | cons v vs ih => rw [sortKeysItems, ih, List.map_cons]

example : dumps (.obj [("b", .arr [.int (-1), .null]), ("a", .str "é\n")]) =
    "\x7b\"a\":\"\\u00e9\\n\",\"b\":[-1,null]\x7d".toList := by decide +kernel

end NexusEngine.JsonDocuments
