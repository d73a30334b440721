import Mathlib.Data.List.Basic
import Mathlib.Data.Nat.Basic

/-!
# Bytes as text

UTF-8, hexadecimal and base64 as the standard library of the source language has them. The
decoders are the lenient ones: `fromHex` skips white space, and `b64decode` discards every
character outside the alphabet and stops at a complete padding.
-/

namespace NexusEngine.TextEncodings

abbrev Bytes := List UInt8

/-! ## UTF-8 -/

def utf8 (text : List Char) : Bytes := text.flatMap String.utf8EncodeChar

theorem utf8_injective : Function.Injective utf8 := by
  intro text text' h
  have hbytes : text.utf8Encode = text'.utf8Encode := by
    simp only [List.utf8Encode]
    exact congrArg List.toByteArray h
  have hstring : String.ofList text = String.ofList text' := by
    apply String.toByteArray_inj.mp
    simpa using hbytes
  exact String.ofList_injective hstring

/-- The characters of a text, read off its bytes where these are ASCII. -/
def chars (s : String) : List Char :=
  let bytes := s.toByteArray.data.toList
  if bytes.all (·.toNat < 128) then bytes.map fun b => Char.ofNat b.toNat else s.toList

/-- A first byte below 128 is the whole character. -/
theorem utf8EncodeChar_ascii {c : Char} (h : ∀ b ∈ String.utf8EncodeChar c, b.toNat < 128) :
    (String.utf8EncodeChar c).map (fun b => Char.ofNat b.toNat) = [c] := by
  have hfirst : ∀ x y : ℕ, 128 ≤ y → y + x < 256 → ¬ (UInt8.ofNat (x + y)).toNat < 128 := by
    intro x y hy hxy
    rw [UInt8.toNat_ofNat', Nat.mod_eq_of_lt (by omega)]
    omega
  unfold String.utf8EncodeChar at h ⊢
  simp only at h ⊢
  split at h
  · next hle =>
    have hmod : (UInt8.ofNat c.val.toNat).toNat = c.val.toNat := by
      rw [UInt8.toNat_ofNat', Nat.mod_eq_of_lt (by omega)]
    rw [if_pos hle, List.map_singleton, hmod]
    exact congrArg (fun d => [d]) (Char.ofNat_toNat c)
  · split at h
    · exact absurd (h _ List.mem_cons_self) (hfirst _ _ (by omega) (by omega))
    · split at h
      · exact absurd (h _ List.mem_cons_self) (hfirst _ _ (by omega) (by omega))
      · exact absurd (h _ List.mem_cons_self) (hfirst _ _ (by omega) (by omega))

@[simp] theorem chars_eq (s : String) : chars s = s.toList := by
  have hbytes : s.toByteArray.data.toList = utf8 s.toList := by
    rw [← String.utf8Encode_toList]
    simp [utf8, List.utf8Encode]
  unfold chars
  simp only
  split
  · next hall =>
    rw [hbytes, List.all_eq_true] at hall
    rw [hbytes]
    generalize s.toList = text at hall
    induction text with
    | nil => rfl
    | cons c text ih =>
      simp only [utf8, List.flatMap_cons, List.map_append, List.mem_append] at hall ih ⊢
      rw [utf8EncodeChar_ascii fun b hb => by simpa using hall b (.inl hb),
        ih fun b hb => hall b (.inr hb)]
      rfl
  · rfl

/-! ## Decimal numbers -/

/-- Decimal digits with leading zeros up to a width. -/
def padded (width n : ℕ) : List Char :=
  List.replicate (width - (Nat.toDigits 10 n).length) '0' ++ Nat.toDigits 10 n

theorem padded_injective (width : ℕ) : Function.Injective (padded width) := by
  intro m n h
  have hvalue := congrArg (fun cs => Nat.ofDigitChars 10 cs 0) h
  simpa [padded, Nat.ofDigitChars_append, Nat.ofDigitChars_replicate_zero,
    Nat.ofDigitChars_ten_toDigits] using hvalue

theorem isDigit_of_mem_padded {width n : ℕ} {c : Char} (h : c ∈ padded width n) :
    c.isDigit := by
  rcases List.mem_append.mp h with h | h
  · rw [(List.mem_replicate.mp h).2]
    rfl
  · exact Nat.isDigit_of_mem_toDigits (by decide) (by decide) h

/-! ## Hexadecimal -/

def hexDigit (n : ℕ) : Char :=
  ['0', '1', '2', '3', '4', '5', '6', '7', '8', '9', 'a', 'b', 'c', 'd', 'e', 'f'].getD n '0'

/-- The value of a hexadecimal digit in either case. -/
def hexValue (c : Char) : Option ℕ :=
  if '0' ≤ c ∧ c ≤ '9' then some (c.toNat - '0'.toNat)
  else if 'a' ≤ c ∧ c ≤ 'f' then some (c.toNat - 'a'.toNat + 10)
  else if 'A' ≤ c ∧ c ≤ 'F' then some (c.toNat - 'A'.toNat + 10)
  else none

def hexByte (b : UInt8) : List Char := [hexDigit (b.toNat / 16), hexDigit (b.toNat % 16)]

/-- Two lower case digits for each byte. -/
def hexdigest (bs : Bytes) : String := String.ofList (bs.flatMap hexByte)

def isAsciiSpace (c : Char) : Bool :=
  c == ' ' || c == '\t' || c == '\n' || c == '\r' || c == Char.ofNat 11 || c == Char.ofNat 12

def fromHexChars : List Char → Option Bytes
  | [] => some []
  | [c] => if isAsciiSpace c then some [] else none
  | c :: d :: rest =>
    if isAsciiSpace c then fromHexChars (d :: rest)
    else
      match hexValue c, hexValue d, fromHexChars rest with
      | some high, some low, some bs => some (UInt8.ofNat (16 * high + low) :: bs)
      | _, _, _ => none

/-- Pairs of digits, with white space allowed between the pairs. -/
def fromHex (text : String) : Option Bytes := fromHexChars (chars text)

theorem hexValue_hexDigit {n : ℕ} (h : n < 16) : hexValue (hexDigit n) = some n := by
  revert n
  decide

theorem isAsciiSpace_hexDigit {n : ℕ} (h : n < 16) : isAsciiSpace (hexDigit n) = false := by
  revert n
  decide

theorem fromHex_hexdigest (bs : Bytes) : fromHex (hexdigest bs) = some bs := by
  have chars : fromHexChars (bs.flatMap hexByte) = some bs := by
    induction bs with
    | nil => rfl
    | cons b bs ih =>
      have hlt : b.toNat < 256 := b.toNat_lt
      have hhigh : b.toNat / 16 < 16 := by omega
      have hlow : b.toNat % 16 < 16 := Nat.mod_lt _ (by decide)
      have hbyte : UInt8.ofNat (16 * (b.toNat / 16) + b.toNat % 16) = b := by
        rw [Nat.div_add_mod, UInt8.ofNat_toNat]
      simp [hexByte, fromHexChars, isAsciiSpace_hexDigit hhigh, hexValue_hexDigit hhigh,
        hexValue_hexDigit hlow, ih, hbyte]
  simpa [fromHex, hexdigest] using chars

theorem hexdigest_injective : Function.Injective hexdigest := by
  intro bs bs' h
  have hdecoded := congrArg fromHex h
  simpa [fromHex_hexdigest] using hdecoded

theorem hexdigest_length (bs : Bytes) : (hexdigest bs).toList.length = 2 * bs.length := by
  rw [hexdigest, String.toList_ofList]
  induction bs with
  | nil => rfl
  | cons b bs ih =>
    rw [List.flatMap_cons, List.length_append, ih, List.length_cons]
    simp only [hexByte, List.length_cons, List.length_nil]
    omega

theorem mem_hexdigest {bs : Bytes} {c : Char} (h : c ∈ (hexdigest bs).toList) :
    ∃ n < 16, c = hexDigit n := by
  simp only [hexdigest, String.toList_ofList, List.mem_flatMap, hexByte, List.mem_cons,
    List.not_mem_nil, or_false] at h
  obtain ⟨b, -, hc⟩ := h
  have hb := b.toNat_lt
  rcases hc with rfl | rfl
  · exact ⟨_, by omega, rfl⟩
  · exact ⟨_, by omega, rfl⟩

theorem hexdigest_no_nul (bs : Bytes) : Char.ofNat 0 ∉ (hexdigest bs).toList := by
  have hdigit : ∀ n < 16, Char.ofNat 0 ≠ hexDigit n := by decide
  intro h
  obtain ⟨n, hn, heq⟩ := mem_hexdigest h
  exact hdigit n hn heq

/-! ## Base64 -/

def base64Digit (n : ℕ) : Char :=
  if n < 26 then Char.ofNat (n + 65)
  else if n < 52 then Char.ofNat (n - 26 + 97)
  else if n < 62 then Char.ofNat (n - 52 + 48)
  else if n = 62 then '+' else '/'

def base64Value (c : Char) : Option ℕ :=
  if 'A' ≤ c ∧ c ≤ 'Z' then some (c.toNat - 65)
  else if 'a' ≤ c ∧ c ≤ 'z' then some (c.toNat - 97 + 26)
  else if '0' ≤ c ∧ c ≤ '9' then some (c.toNat - 48 + 52)
  else if c = '+' then some 62
  else if c = '/' then some 63
  else none

def b64encodeChars : Bytes → List Char
  | [] => []
  | [a] => [base64Digit (a.toNat / 4), base64Digit (a.toNat % 4 * 16), '=', '=']
  | [a, b] =>
    [base64Digit (a.toNat / 4), base64Digit (a.toNat % 4 * 16 + b.toNat / 16),
      base64Digit (b.toNat % 16 * 4), '=']
  | a :: b :: c :: rest =>
    base64Digit (a.toNat / 4) :: base64Digit (a.toNat % 4 * 16 + b.toNat / 16) ::
      base64Digit (b.toNat % 16 * 4 + c.toNat / 64) :: base64Digit (c.toNat % 64) ::
        b64encodeChars rest

def b64encode (bs : Bytes) : String := String.ofList (b64encodeChars bs)

/-- The decoding loop. `quad` counts the data characters of the open group, `left` holds the
bits of the last one that are not written yet, `pads` the padding seen since. A complete
padding ends the input, whatever follows it. -/
def a2bBase64 : List Char → (quad left pads : ℕ) → Option Bytes
  | [], quad, _, _ => if quad = 0 then some [] else none
  | c :: cs, quad, left, pads =>
    if c = '=' then
      if 2 ≤ quad then
        if 4 ≤ quad + (pads + 1) then some [] else a2bBase64 cs quad left (pads + 1)
      else a2bBase64 cs quad left pads
    else
      match base64Value c with
      | none => a2bBase64 cs quad left pads
      | some v =>
        match quad with
        | 0 => a2bBase64 cs 1 v 0
        | 1 => (a2bBase64 cs 2 (v % 16) 0).map (UInt8.ofNat (left * 4 + v / 16) :: ·)
        | 2 => (a2bBase64 cs 3 (v % 4) 0).map (UInt8.ofNat (left * 16 + v / 4) :: ·)
        | _ => (a2bBase64 cs 0 0 0).map (UInt8.ofNat (left * 64 + v) :: ·)

/-- Text with a character outside ASCII is an error, not something to discard. -/
def b64decode (text : String) : Option Bytes :=
  if (chars text).all (fun c => c.toNat < 128) then a2bBase64 (chars text) 0 0 0 else none

theorem base64Value_base64Digit {n : ℕ} (h : n < 64) :
    base64Value (base64Digit n) = some n := by
  revert n
  decide

theorem base64Digit_ne_pad {n : ℕ} (h : n < 64) : base64Digit n ≠ '=' := by
  revert n
  decide

theorem base64Digit_ascii {n : ℕ} (h : n < 64) : (base64Digit n).toNat < 128 := by
  revert n
  decide

/-- One data character of the loop, by its value. -/
theorem a2bBase64_digit {n : ℕ} (h : n < 64) (cs : List Char) (quad left pads : ℕ) :
    a2bBase64 (base64Digit n :: cs) quad left pads =
      match quad with
      | 0 => a2bBase64 cs 1 n 0
      | 1 => (a2bBase64 cs 2 (n % 16) 0).map (UInt8.ofNat (left * 4 + n / 16) :: ·)
      | 2 => (a2bBase64 cs 3 (n % 4) 0).map (UInt8.ofNat (left * 16 + n / 4) :: ·)
      | _ => (a2bBase64 cs 0 0 0).map (UInt8.ofNat (left * 64 + n) :: ·) := by
  rw [a2bBase64, if_neg (base64Digit_ne_pad h), base64Value_base64Digit h]

theorem a2bBase64_b64encodeChars (bs : Bytes) (left : ℕ) :
    a2bBase64 (b64encodeChars bs) 0 left 0 = some bs := by
  induction bs using b64encodeChars.induct generalizing left with
  | case1 => rfl
  | case2 a =>
    have ha : a.toNat < 256 := a.toNat_lt
    have hbyte : a.toNat / 4 * 4 + a.toNat % 4 * 16 / 16 = a.toNat := by omega
    rw [b64encodeChars, a2bBase64_digit (by omega)]
    simp only [a2bBase64_digit (show a.toNat % 4 * 16 < 64 by omega), hbyte]
    rw [UInt8.ofNat_toNat]
    rfl
  | case3 a b =>
    have ha : a.toNat < 256 := a.toNat_lt
    have hb : b.toNat < 256 := b.toNat_lt
    have hfirst : a.toNat / 4 * 4 + (a.toNat % 4 * 16 + b.toNat / 16) / 16 = a.toNat := by
      omega
    have hsecond : (a.toNat % 4 * 16 + b.toNat / 16) % 16 * 16 + b.toNat % 16 * 4 / 4 =
        b.toNat := by omega
    rw [b64encodeChars, a2bBase64_digit (by omega)]
    simp only [a2bBase64_digit (show a.toNat % 4 * 16 + b.toNat / 16 < 64 by omega),
      a2bBase64_digit (show b.toNat % 16 * 4 < 64 by omega), hfirst, hsecond]
    rw [UInt8.ofNat_toNat, UInt8.ofNat_toNat]
    rfl
  | case4 a b c rest ih =>
    have ha : a.toNat < 256 := a.toNat_lt
    have hb : b.toNat < 256 := b.toNat_lt
    have hc : c.toNat < 256 := c.toNat_lt
    have hfirst : a.toNat / 4 * 4 + (a.toNat % 4 * 16 + b.toNat / 16) / 16 = a.toNat := by
      omega
    have hsecond : (a.toNat % 4 * 16 + b.toNat / 16) % 16 * 16 +
        (b.toNat % 16 * 4 + c.toNat / 64) / 4 = b.toNat := by omega
    have hthird : (b.toNat % 16 * 4 + c.toNat / 64) % 4 * 64 + c.toNat % 64 = c.toNat := by
      omega
    rw [b64encodeChars, a2bBase64_digit (by omega)]
    simp only [a2bBase64_digit (show a.toNat % 4 * 16 + b.toNat / 16 < 64 by omega),
      a2bBase64_digit (show b.toNat % 16 * 4 + c.toNat / 64 < 64 by omega),
      a2bBase64_digit (show c.toNat % 64 < 64 by omega), hfirst, hsecond, hthird, ih]
    rw [UInt8.ofNat_toNat, UInt8.ofNat_toNat, UInt8.ofNat_toNat]
    rfl

theorem mem_b64encodeChars {bs : Bytes} {d : Char} (h : d ∈ b64encodeChars bs) :
    d = '=' ∨ ∃ n < 64, d = base64Digit n := by
  have digit : ∀ {n : ℕ}, n < 64 → base64Digit n = '=' ∨ ∃ m < 64, base64Digit n = base64Digit m :=
    fun hn => .inr ⟨_, hn, rfl⟩
  induction bs using b64encodeChars.induct with
  | case1 => nomatch h
  | case2 a =>
    have ha : a.toNat < 256 := a.toNat_lt
    simp only [b64encodeChars, List.mem_cons, List.not_mem_nil, or_false] at h
    rcases h with rfl | rfl | rfl | rfl
    · exact digit (by omega)
    · exact digit (by omega)
    · exact .inl rfl
    · exact .inl rfl
  | case3 a b =>
    have ha : a.toNat < 256 := a.toNat_lt
    have hb : b.toNat < 256 := b.toNat_lt
    simp only [b64encodeChars, List.mem_cons, List.not_mem_nil, or_false] at h
    rcases h with rfl | rfl | rfl | rfl
    · exact digit (by omega)
    · exact digit (by omega)
    · exact digit (by omega)
    · exact .inl rfl
  | case4 a b c rest ih =>
    have ha : a.toNat < 256 := a.toNat_lt
    have hb : b.toNat < 256 := b.toNat_lt
    have hc : c.toNat < 256 := c.toNat_lt
    simp only [b64encodeChars, List.mem_cons] at h
    rcases h with rfl | rfl | rfl | rfl | hd
    · exact digit (by omega)
    · exact digit (by omega)
    · exact digit (by omega)
    · exact digit (by omega)
    · exact ih hd

theorem b64encodeChars_ascii {bs : Bytes} {d : Char} (h : d ∈ b64encodeChars bs) :
    d.toNat < 128 := by
  rcases mem_b64encodeChars h with rfl | ⟨n, hn, rfl⟩
  · decide
  · exact base64Digit_ascii hn

theorem b64encode_no_nul (bs : Bytes) : Char.ofNat 0 ∉ (b64encode bs).toList := by
  have hdigit : ∀ n < 64, Char.ofNat 0 ≠ base64Digit n := by decide
  rw [b64encode, String.toList_ofList]
  intro h
  rcases mem_b64encodeChars h with hpad | ⟨n, hn, heq⟩
  · exact absurd hpad (by decide)
  · exact hdigit n hn heq

theorem b64decode_b64encode (bs : Bytes) : b64decode (b64encode bs) = some bs := by
  have hascii : (b64encodeChars bs).all (fun c => c.toNat < 128) = true := by
    rw [List.all_eq_true]
    exact fun c hc => by simpa using b64encodeChars_ascii hc
  simp only [b64decode, b64encode, chars_eq, String.toList_ofList]
  rw [if_pos hascii]
  exact a2bBase64_b64encodeChars bs 0

example : b64decode "TWE=" = b64decode "TW\nE=junk" := by decide

end NexusEngine.TextEncodings
