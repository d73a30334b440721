import NexusEngine.ParameterTypes

/-!
# Version labels

The label of a successor is read off the version suffix of the label before it and printed again.
A label has at most one suffix, so the suffix that was printed is the one that is read next, and the
version goes up by one at each rotation.
-/

namespace NexusEngine.VersionLabels

open TextEncodings StoredColumns HsmService
open ParameterTypes (IsNatural decimalDigit_minus)

/-! ## Digits -/

/-- The number that `int` reads. -/
def digitsValue (digits : List Char) : ℕ :=
  digits.foldl (fun n c => n * 10 + (decimalDigit c).getD 0) 0

theorem decimalDigit_newline : decimalDigit '\n' = none := by decide +kernel

theorem decimalDigit_of_isDigit {c : Char} (h : c.isDigit = true) :
    decimalDigit c = some (c.toNat - 48) := by
  rw [Char.isDigit_iff_toNat] at h
  have hfirst : decimalZeros.find? (fun first => first ≤ c.toNat && c.toNat < first + 10) =
      some 0x30 := by
    apply List.find?_cons_of_pos
    have hzero : '0'.toNat = 48 := rfl
    have hnine : '9'.toNat = 57 := rfl
    simp only [Bool.and_eq_true, decide_eq_true_eq]
    omega
  rw [decimalDigit, hfirst, Option.map_some]

theorem decimalDigit_lt {c : Char} {d : ℕ} (h : decimalDigit c = some d) : d < 10 := by
  obtain ⟨first, hfirst, rfl⟩ := Option.map_eq_some_iff.mp h
  have hrange := List.find?_some hfirst
  simp only [Bool.and_eq_true, decide_eq_true_eq] at hrange
  omega

theorem digitsValue_concat (digits : List Char) (c : Char) :
    digitsValue (digits ++ [c]) = digitsValue digits * 10 + (decimalDigit c).getD 0 := by
  rw [digitsValue, List.foldl_append]
  rfl

theorem digitsValue_lt {digits : List Char} (h : ∀ c ∈ digits, (decimalDigit c).isSome = true) :
    digitsValue digits < 10 ^ digits.length := by
  induction digits using List.reverseRecOn with
  | nil => simp [digitsValue]
  | append_singleton digits c ih =>
    have hdigits := ih fun d hd => h d (List.mem_append_left _ hd)
    obtain ⟨d, hd⟩ := Option.isSome_iff_exists.mp (h c (by simp))
    have hlt := decimalDigit_lt hd
    rw [digitsValue_concat, hd, List.length_append, List.length_singleton, pow_succ]
    simp only [Option.getD_some]
    omega

/-- Only nines carry into a new digit. -/
theorem digitsValue_succ_eq {digits : List Char}
    (h : ∀ c ∈ digits, (decimalDigit c).isSome = true) :
    digitsValue digits + 1 = 10 ^ digits.length ↔ ∀ c ∈ digits, decimalDigit c = some 9 := by
  induction digits using List.reverseRecOn with
  | nil => simp [digitsValue]
  | append_singleton digits c ih =>
    have hdigits : ∀ d ∈ digits, (decimalDigit d).isSome = true :=
      fun d hd => h d (List.mem_append_left _ hd)
    have hbelow := digitsValue_lt hdigits
    obtain ⟨d, hd⟩ := Option.isSome_iff_exists.mp (h c (by simp))
    have hlt := decimalDigit_lt hd
    have hcarry : digitsValue digits * 10 + d + 1 = 10 ^ digits.length * 10 ↔
        digitsValue digits + 1 = 10 ^ digits.length ∧ d = 9 := by omega
    rw [digitsValue_concat, hd, List.length_append, List.length_singleton, pow_succ,
      Option.getD_some, hcarry, ih hdigits]
    simp only [List.mem_append, List.mem_singleton, or_imp, forall_and, forall_eq, hd,
      Option.some.injEq]

/-- The digits that are printed are read again. -/
theorem digitsValue_toDigits (n : ℕ) : digitsValue (Nat.toDigits 10 n) = n := by
  have hsame : ∀ (digits : List Char) (m : ℕ), (∀ c ∈ digits, c.isDigit = true) →
      digits.foldl (fun n c => n * 10 + (decimalDigit c).getD 0) m =
        Nat.ofDigitChars 10 digits m := by
    intro digits
    induction digits with
    | nil => intro m _; rfl
    | cons c digits ih =>
      intro m hdigits
      rw [List.foldl_cons, Nat.ofDigitChars_cons,
        decimalDigit_of_isDigit (hdigits c List.mem_cons_self), ih _ fun d hd =>
          hdigits d (List.mem_cons_of_mem _ hd), Option.getD_some, Nat.mul_comm]
      rfl
  rw [digitsValue, hsame _ _ fun c hc => Nat.isDigit_of_mem_toDigits (by decide) (by decide) hc]
  exact Nat.ofDigitChars_ten_toDigits

theorem isNatural_toDigits (n : ℕ) : IsNatural (Nat.toDigits 10 n) := by
  refine ⟨Nat.toDigits_ne_nil, fun c hc => ?_⟩
  rw [decimalDigit_of_isDigit (Nat.isDigit_of_mem_toDigits (by decide) (by decide) hc)]
  rfl

/-! ## The version suffix -/

/-- A label that ends in `-v` and digits, up to the newline that may end a text. -/
structure Versioned (label stem digits ending : List Char) : Prop where
  split : label = stem ++ '-' :: 'v' :: (digits ++ ending)
  digits : IsNatural digits
  ending : ending = [] ∨ ending = ['\n']

theorem takeWhile_digits {digits ending : List Char}
    (hdigits : ∀ c ∈ digits, (decimalDigit c).isSome = true)
    (hending : ending = [] ∨ ending = ['\n']) :
    (digits ++ ending).takeWhile (fun c => (decimalDigit c).isSome) = digits := by
  rw [List.takeWhile_append_of_pos hdigits]
  rcases hending with rfl | rfl
  · simp
  · simp [decimalDigit_newline]

theorem Versioned.versionSuffix {label digits ending : List Char}
    (h : Versioned label [] digits ending) :
    versionSuffix label = some (digitsValue digits) := by
  rw [h.split, List.nil_append, HsmService.versionSuffix, takeWhile_digits h.digits.2 h.ending,
    List.drop_left, if_pos ⟨h.digits.1, h.ending⟩]
  rfl

theorem versioned_of_versionSuffix {label : List Char} {version : ℕ}
    (h : versionSuffix label = some version) :
    ∃ digits ending, Versioned label [] digits ending ∧ digitsValue digits = version := by
  unfold versionSuffix at h
  split at h
  · next rest =>
    dsimp only at h
    split at h
    · next hsuffix =>
      refine ⟨_, _, ⟨?_, ⟨hsuffix.1, ?_⟩, hsuffix.2⟩, Option.some.inj h⟩
      · rw [List.nil_append, List.prefix_iff_eq_append.mp (List.takeWhile_prefix _)]
      · exact List.all_eq_true.mp List.all_takeWhile
    · cases h
  · cases h

/-- Where a suffix follows, none starts earlier: it would go on beyond a second minus sign. -/
theorem versionSuffix_eq_none {c : Char} {stem rest : List Char} :
    versionSuffix (c :: (stem ++ '-' :: rest)) = none := by
  by_contra hsome
  obtain ⟨version, hversion⟩ := Option.ne_none_iff_exists'.mp hsome
  obtain ⟨digits, ending, hversioned, -⟩ := versioned_of_versionSuffix hversion
  have htail : stem ++ '-' :: rest = 'v' :: (digits ++ ending) :=
    (List.cons.inj hversioned.split).2
  have hmem : '-' ∈ 'v' :: (digits ++ ending) := htail ▸ by simp
  rw [List.mem_cons, List.mem_append] at hmem
  rcases hmem with hv | hdigits | hending
  · exact absurd hv (by decide)
  · exact hversioned.digits.no_minus hdigits
  · rcases hversioned.ending with rfl | rfl
    · cases hending
    · exact absurd (List.mem_singleton.mp hending) (by decide)

/-- The search finds the suffix that is there. -/
theorem Versioned.splitVersion {label stem digits ending : List Char}
    (h : Versioned label stem digits ending) :
    splitVersion label = some (stem, digitsValue digits) := by
  induction stem generalizing label with
  | nil =>
    have hsuffix := h.versionSuffix
    rw [h.split, List.nil_append] at hsuffix ⊢
    rw [HsmService.splitVersion, hsuffix]
  | cons c stem ih =>
    have hlater : Versioned (stem ++ '-' :: 'v' :: (digits ++ ending)) stem digits ending :=
      ⟨rfl, h.digits, h.ending⟩
    rw [h.split, List.cons_append, HsmService.splitVersion, versionSuffix_eq_none, ih hlater]
    rfl

theorem versioned_of_splitVersion {label stem : List Char} {version : ℕ}
    (h : splitVersion label = some (stem, version)) :
    ∃ digits ending, Versioned label stem digits ending ∧ digitsValue digits = version := by
  induction label generalizing stem with
  | nil => cases h
  | cons c label ih =>
    unfold splitVersion at h
    split at h
    · next found hsuffix =>
      obtain ⟨rfl, rfl⟩ := Prod.mk.inj (Option.some.inj h)
      exact versioned_of_versionSuffix hsuffix
    · obtain ⟨⟨stem', version'⟩, hlater, heq⟩ := Option.map_eq_some_iff.mp h
      obtain ⟨rfl, rfl⟩ := Prod.mk.inj heq
      obtain ⟨digits, ending, hversioned, hvalue⟩ := ih hlater
      refine ⟨digits, ending, ⟨?_, hversioned.digits, hversioned.ending⟩, hvalue⟩
      rw [hversioned.split]
      rfl

/-- The label ends in `-v` and decimal digits. -/
def EndsInVersion (label : String) : Prop :=
  ∃ stem digits ending, Versioned label.toList stem digits ending

theorem splitVersion_eq_none {label : String} (h : ¬ EndsInVersion label) :
    splitVersion (chars label) = none := by
  rw [chars_eq]
  cases hsplit : splitVersion label.toList with
  | none => rfl
  | some split =>
    obtain ⟨digits, ending, hversioned, -⟩ := versioned_of_splitVersion hsplit
    exact absurd ⟨_, digits, ending, hversioned⟩ h

/-! ## The next label -/

/-- The label of a version. -/
def versionLabel (base : String) (version : ℕ) : String := base ++ "-v" ++ natText version

theorem Versioned.nextVersionLabel {label : String} {stem digits ending : List Char}
    (h : Versioned label.toList stem digits ending) :
    nextVersionLabel label = versionLabel (String.ofList stem) (digitsValue digits + 1) := by
  rw [HsmService.nextVersionLabel, chars_eq, h.splitVersion]
  rfl

theorem nextVersionLabel_of_not_versioned {label : String} (h : ¬ EndsInVersion label) :
    nextVersionLabel label = versionLabel label 2 := by
  rw [nextVersionLabel, splitVersion_eq_none h]
  have htwo : natText 2 = "2" := rfl
  rw [versionLabel, htwo, String.append_assoc]
  rfl

theorem versioned_versionLabel (base : String) (version : ℕ) :
    Versioned (versionLabel base version).toList base.toList (Nat.toDigits 10 version) [] where
  split := by simp [versionLabel, natText]
  digits := isNatural_toDigits version
  ending := .inl rfl

/-- One rotation counts up by one. -/
theorem nextVersionLabel_versionLabel (base : String) (version : ℕ) :
    nextVersionLabel (versionLabel base version) = versionLabel base (version + 1) := by
  rw [(versioned_versionLabel base version).nextVersionLabel, digitsValue_toDigits,
    String.ofList_toList]

theorem nextVersionLabel_iterate_versionLabel (base : String) (version k : ℕ) :
    nextVersionLabel^[k] (versionLabel base version) = versionLabel base (version + k) := by
  induction k generalizing version with
  | zero => rfl
  | succ k ih =>
    rw [Function.iterate_succ_apply, nextVersionLabel_versionLabel, ih]
    congr 1
    omega

theorem versionLabel_injective (base : String) : Function.Injective (versionLabel base) := by
  intro m n h
  have hm := (versioned_versionLabel base m).splitVersion
  have hn := (versioned_versionLabel base n).splitVersion
  rw [h, hn] at hm
  simpa [digitsValue_toDigits, eq_comm] using hm

/-- A positive number has no leading zero. -/
theorem toDigits_head? {n : ℕ} (h : 0 < n) : (Nat.toDigits 10 n).head? ≠ some '0' := by
  induction n using Nat.strong_induction_on with
  | h n ih =>
    by_cases hlt : n < 10
    · rw [Nat.toDigits_of_lt_base hlt, List.head?_singleton]
      intro hzero
      have hvalue := Nat.toNat_digitChar_of_lt_ten hlt
      rw [Option.some.inj hzero] at hvalue
      have hcode : '0'.toNat = 48 := rfl
      omega
    · rw [Nat.toDigits_of_base_le (by decide) (by omega),
        List.head?_append_of_ne_nil _ Nat.toDigits_ne_nil]
      exact ih (n / 10) (by omega) (by omega)

theorem nextVersionLabel_ne (label : String) : nextVersionLabel label ≠ label := by
  intro hsame
  by_cases hversion : EndsInVersion label
  · obtain ⟨stem, digits, ending, h⟩ := hversion
    rw [h.nextVersionLabel] at hsame
    have hnext := (versioned_versionLabel (String.ofList stem) (digitsValue digits + 1)).splitVersion
    rw [hsame, h.splitVersion, digitsValue_toDigits] at hnext
    have hversions := (Prod.mk.inj (Option.some.inj hnext)).2
    omega
  · rw [nextVersionLabel_of_not_versioned hversion] at hsame
    exact hversion ⟨_, _, _, hsame ▸ versioned_versionLabel label 2⟩

/-- The next label of a text is a text. -/
theorem text_nextVersionLabel {label : String} (h : text label = some label) :
    text (nextVersionLabel label) = some (nextVersionLabel label) := by
  have hversion : ∀ base : String, (∀ c ∈ base.toList, c ∈ label.toList) → ∀ version,
      text (versionLabel base version) = some (versionLabel base version) := by
    intro base hbase version
    have htext : text base = some base :=
      text_iff.mpr fun hmem => text_iff.mp h (hbase _ hmem)
    exact text_append (text_append htext rfl) (text_natText version)
  by_cases hends : EndsInVersion label
  · obtain ⟨stem, digits, ending, hversioned⟩ := hends
    rw [hversioned.nextVersionLabel]
    apply hversion
    intro c hc
    rw [String.toList_ofList] at hc
    rw [hversioned.split]
    exact List.mem_append_left _ hc
  · rw [nextVersionLabel_of_not_versioned hends]
    exact hversion label (fun _ hc => hc) 2

/-! ## Labels that fit -/

/-- A label of at most `width` characters leaves room for its successor: for the version that is
added where there is none, and for the digit that is carried where the version is all nines. -/
structure LeavesRoom (width : ℕ) (label : String) : Prop where
  unversioned : ¬ EndsInVersion label → label.toList.length + 3 ≤ width
  carry : ∀ stem nines, label.toList = stem ++ '-' :: 'v' :: nines → nines ≠ [] →
    (∀ c ∈ nines, decimalDigit c = some 9) → label.toList.length + 1 ≤ width

theorem versionLabel_length (base : String) (version : ℕ) :
    (versionLabel base version).toList.length =
      base.toList.length + 2 + (Nat.toDigits 10 version).length := by
  simp only [versionLabel, natText, String.toList_append, List.length_append,
    String.toList_ofList]
  rfl

theorem Versioned.length {label stem digits ending : List Char}
    (h : Versioned label stem digits ending) :
    label.length = stem.length + 2 + digits.length + ending.length := by
  rw [h.split]
  simp only [List.length_append, List.length_cons]
  omega

theorem versioned_of_nines {label stem nines : List Char} (h : label = stem ++ '-' :: 'v' :: nines)
    (hne : nines ≠ []) (hnines : ∀ c ∈ nines, decimalDigit c = some 9) :
    Versioned label stem nines [] := by
  constructor
  case split => simpa using h
  case ending => exact .inl rfl
  case digits =>
    refine ⟨hne, fun c hc => ?_⟩
    rw [hnines c hc]
    rfl

/-- The next number has a digit more where all digits are nines, and only there. -/
theorem toDigits_succ_length {digits : List Char} (h : IsNatural digits) :
    (Nat.toDigits 10 (digitsValue digits + 1)).length ≤ digits.length + 1 ∧
      ((Nat.toDigits 10 (digitsValue digits + 1)).length ≤ digits.length ↔
        ¬ ∀ c ∈ digits, decimalDigit c = some 9) := by
  have hpos : 0 < digits.length := List.length_pos_of_ne_nil h.1
  have hfits : ∀ n, 0 < n → ((Nat.toDigits 10 (digitsValue digits + 1)).length ≤ n ↔
      digitsValue digits + 1 < 10 ^ n) := fun n hn => Nat.length_toDigits_le_iff (by decide) hn
  have hbelow := digitsValue_lt h.2
  constructor
  · rw [hfits _ (by omega), pow_succ]
    omega
  · rw [hfits _ hpos, ← digitsValue_succ_eq h.2]
    omega

theorem nextVersionLabel_length_le {width : ℕ} {label : String}
    (hwidth : label.toList.length ≤ width) :
    (nextVersionLabel label).toList.length ≤ width ↔ LeavesRoom width label := by
  by_cases hversion : EndsInVersion label
  · obtain ⟨stem, digits, ending, h⟩ := hversion
    have hlength := h.length
    obtain ⟨hmore, hcarry⟩ := toDigits_succ_length h.digits
    rw [h.nextVersionLabel, versionLabel_length, String.toList_ofList]
    constructor
    · intro hle
      refine ⟨fun hnot => absurd ⟨_, _, _, h⟩ hnot, fun stem' nines hsplit hne hnines => ?_⟩
      -- a label has one suffix, so the nines are its digits
      have hversioned := versioned_of_nines hsplit hne hnines
      have hsame := h.splitVersion
      rw [hversioned.splitVersion, Option.some.injEq, Prod.mk.injEq] at hsame
      have hnew := (toDigits_succ_length hversioned.digits).2.not.mpr (not_not.mpr hnines)
      have hlength' := hversioned.length
      rw [hsame.2] at hnew
      rw [← hsame.1] at hle
      simp only [List.length_nil] at hlength'
      omega
    · intro hroom
      rcases h.ending with rfl | rfl
      · by_cases hnines : ∀ c ∈ digits, decimalDigit c = some 9
        · have hspare := hroom.carry stem digits (by simpa using h.split) h.digits.1 hnines
          simp only [List.length_nil] at hlength
          omega
        · have hno := hcarry.mpr hnines
          simp only [List.length_nil] at hlength
          omega
      · simp only [List.length_singleton] at hlength
        omega
  · rw [nextVersionLabel_of_not_versioned hversion, versionLabel_length]
    have htwo : (Nat.toDigits 10 2).length = 1 := rfl
    rw [htwo]
    constructor
    · intro hle
      refine ⟨fun _ => hle, fun stem nines hsplit hne hnines => absurd ?_ hversion⟩
      exact ⟨stem, nines, [], versioned_of_nines hsplit hne hnines⟩
    · intro hroom
      exact hroom.unversioned hversion

/-! ## Repeated rotations -/

section

variable {base : String}

/-- A label without line breaks has no other suffix than `-v` and digits. -/
theorem not_endsInVersion (hline : '\n' ∉ base.toList)
    (hbase : ∀ stem digits, IsNatural digits → base.toList ≠ stem ++ '-' :: 'v' :: digits) :
    ¬ EndsInVersion base := by
  rintro ⟨stem, digits, ending, hversioned⟩
  rcases hversioned.ending with rfl | rfl
  · exact hbase stem digits hversioned.digits (by simpa using hversioned.split)
  · exact hline (hversioned.split ▸ by simp)

theorem nextVersionLabel_iterate (hbase : ¬ EndsInVersion base) (k : ℕ) :
    nextVersionLabel^[k + 1] base = versionLabel base (k + 2) := by
  rw [Function.iterate_succ_apply, nextVersionLabel_of_not_versioned hbase,
    nextVersionLabel_iterate_versionLabel, Nat.add_comm]

/-- Default rotations of a label count its version up, from two where it has none, and never give a
label twice. -/
theorem rotations_count_up (hline : '\n' ∉ base.toList)
    (hbase : ∀ stem digits, IsNatural digits → base.toList ≠ stem ++ '-' :: 'v' :: digits)
    (version : ℕ) :
    (∀ k, 1 ≤ k →
      nextVersionLabel^[k] (base ++ "-v" ++ natText version) =
          base ++ "-v" ++ natText (version + k) ∧
        (natText (version + k)).toList.head? ≠ some '0' ∧
      nextVersionLabel^[k] base = base ++ "-v" ++ natText (k + 1)) ∧
      Function.Injective (fun k => nextVersionLabel^[k] (base ++ "-v" ++ natText version)) ∧
      Function.Injective (fun k => nextVersionLabel^[k] base) := by
  have hunversioned := not_endsInVersion hline hbase
  have hnumbered : ∀ k, nextVersionLabel^[k] (base ++ "-v" ++ natText version) =
      versionLabel base (version + k) := nextVersionLabel_iterate_versionLabel base version
  refine ⟨fun k hk => ⟨hnumbered k, ?_, ?_⟩, ?_, ?_⟩
  · rw [natText, String.toList_ofList]
    exact toDigits_head? (by omega)
  · obtain ⟨k, rfl⟩ := Nat.exists_eq_add_of_le' hk
    exact nextVersionLabel_iterate hunversioned k
  · intro m n h
    dsimp only at h
    rw [hnumbered, hnumbered] at h
    have hsame := versionLabel_injective base h
    omega
  · intro m n h
    dsimp only at h
    -- no successor is the label that the chain starts from
    have hfirst : ∀ k, nextVersionLabel^[k + 1] base ≠ base := by
      intro k hsame
      rw [nextVersionLabel_iterate hunversioned] at hsame
      exact hunversioned ⟨_, _, _, hsame ▸ versioned_versionLabel base (k + 2)⟩
    cases m with
    | zero =>
      cases n with
      | zero => rfl
      | succ n => exact absurd h.symm (hfirst n)
    | succ m =>
      cases n with
      | zero => exact absurd h (hfirst m)
      | succ n =>
        rw [nextVersionLabel_iterate hunversioned, nextVersionLabel_iterate hunversioned] at h
        have hsame := versionLabel_injective base h
        omega

end

/-- A base with a suffix in its middle, and a carry. -/
theorem rotations_count_up_sample :
    nextVersionLabel^[3] ("nexus-v7-eu" ++ "-v" ++ natText 98) =
        "nexus-v7-eu" ++ "-v" ++ natText 101 ∧
      nextVersionLabel^[3] "nexus-v7-eu" = "nexus-v7-eu" ++ "-v" ++ natText 4 := by
  have hbase : ∀ stem digits, IsNatural digits →
      "nexus-v7-eu".toList ≠ stem ++ '-' :: 'v' :: digits := by
    intro stem digits hdigits h
    have hlast : 'u' ∈ digits := by
      have hend : ('-' :: 'v' :: digits).getLast? = some 'u' := by
        rw [← List.getLast?_append_of_ne_nil stem (by simp), ← h]
        rfl
      rw [List.getLast?_cons_cons, List.getLast?_cons_of_ne_nil hdigits.1] at hend
      exact List.mem_of_getLast? hend
    exact absurd (hdigits.2 'u' hlast) (by decide +kernel)
  have hcounts := (rotations_count_up (by decide +kernel) hbase 98).1 3 (by decide)
  exact ⟨hcounts.1, hcounts.2.2⟩

end NexusEngine.VersionLabels
