import NexusEngine.JsonDocuments
import NexusEngine.Dictionaries
import NexusEngine.RelatedLists
import Mathlib.Data.Char

/-!
# Equality of documents

Two documents are equal when they have the same shape and equal leaves. Objects are compared as
dictionaries, and numbers by their values, whatever their types. The canonical text of a document
tells more: it also shows how each number is written, and nothing else.
-/

namespace NexusEngine.JsonEquality

open JsonDocuments Dictionaries RelatedLists

/-! ## Values -/

/-- The number that a value is, if it is one. A boolean is 0 or 1. -/
def number (floatValue : FloatText → Rat) : Json → Option Rat
  | .bool b => some (if b then 1 else 0)
  | .int n => some n
  | .float x => some (floatValue x)
  | _ => none

mutual

/-- Equality of values. The keys of an object may come in any order, and numbers are equal across
their types. -/
def valuesEqual (floatValue : FloatText → Rat) : Json → Json → Bool
  | .null, .null => true
  | .str s, .str t => s == t
  | .nonfinite x, .nonfinite y => x == y && x != .nan
  | .arr vs, .arr ws => itemsEqual floatValue vs ws
  | .obj kvs, .obj lws => kvs.length == lws.length && membersEqual floatValue kvs lws
  | v, w =>
    match number floatValue v, number floatValue w with
    | some a, some b => a == b
    | _, _ => false
termination_by structural v => v

def itemsEqual (floatValue : FloatText → Rat) : List Json → List Json → Bool
  | [], [] => true
  | v :: vs, w :: ws => valuesEqual floatValue v w && itemsEqual floatValue vs ws
  | _, _ => false
termination_by structural vs => vs

def membersEqual (floatValue : FloatText → Rat) :
    List (String × Json) → List (String × Json) → Bool
  | [], _ => true
  | kv :: kvs, lws => memberEqual floatValue kv lws && membersEqual floatValue kvs lws
termination_by structural kvs => kvs

def memberEqual (floatValue : FloatText → Rat) : String × Json → List (String × Json) → Bool
  | (k, v), lws =>
    match lws.find? fun e => e.1 = k with
    | some e => valuesEqual floatValue v e.2
    | none => false
termination_by structural kv => kv

end

example : valuesEqual (fun _ => 1) (.obj [("a", .int 1), ("b", .null)])
    (.obj [("b", .null), ("a", .bool true)]) = true := by
  simp [valuesEqual, membersEqual, memberEqual, number]

mutual

/-- No object in the document has a key twice. -/
def isDictionary : Json → Bool
  | .arr vs => isDictionaryItems vs
  | .obj kvs => decide (keys kvs).Nodup && isDictionaryMembers kvs
  | _ => true
termination_by structural v => v

def isDictionaryItems : List Json → Bool
  | [] => true
  | v :: vs => isDictionary v && isDictionaryItems vs
termination_by structural vs => vs

def isDictionaryMembers : List (String × Json) → Bool
  | [] => true
  | kv :: kvs => isDictionaryMember kv && isDictionaryMembers kvs
termination_by structural kvs => kvs

def isDictionaryMember : String × Json → Bool
  | (_, v) => isDictionary v
termination_by structural kv => kv

end

/-! ## Containers -/

theorem isDictionary_arr {vs : List Json} :
    isDictionary (.arr vs) = true ↔ ∀ v ∈ vs, isDictionary v = true := by
  rw [isDictionary]
  induction vs with
  | nil => simp [isDictionaryItems]
  | cons v vs ih => simp [isDictionaryItems, ih]

theorem isDictionaryMembers_iff {kvs : List (String × Json)} :
    isDictionaryMembers kvs = true ↔ ∀ kv ∈ kvs, isDictionary kv.2 = true := by
  induction kvs with
  | nil => simp [isDictionaryMembers]
  | cons kv kvs ih =>
    obtain ⟨k, v⟩ := kv
    simp [isDictionaryMembers, isDictionaryMember, ih]

theorem isDictionary_obj {kvs : List (String × Json)} :
    isDictionary (.obj kvs) = true ↔
      (keys kvs).Nodup ∧ ∀ kv ∈ kvs, isDictionary kv.2 = true := by
  rw [isDictionary, Bool.and_eq_true, decide_eq_true_eq, isDictionaryMembers_iff]

theorem isStandard_arr {vs : List Json} :
    isStandard (.arr vs) = true ↔ ∀ v ∈ vs, isStandard v = true := by
  rw [isStandard]
  induction vs with
  | nil => simp [isStandardItems]
  | cons v vs ih => simp [isStandardItems, ih]

theorem isStandard_obj {kvs : List (String × Json)} :
    isStandard (.obj kvs) = true ↔ ∀ kv ∈ kvs, isStandard kv.2 = true := by
  rw [isStandard]
  induction kvs with
  | nil => simp [isStandardMembers]
  | cons kv kvs ih =>
    obtain ⟨k, v⟩ := kv
    simp [isStandardMembers, isStandardMember, ih]

section

variable {floatValue : FloatText → Rat}

theorem itemsEqual_iff {vs ws : List Json} :
    itemsEqual floatValue vs ws = true ↔
      List.Forall₂ (fun v w => valuesEqual floatValue v w = true) vs ws := by
  induction vs generalizing ws with
  | nil => cases ws <;> simp [itemsEqual]
  | cons v vs ih => cases ws <;> simp [itemsEqual, ih]

theorem memberEqual_iff {kv : String × Json} {lws : List (String × Json)} :
    memberEqual floatValue kv lws = true ↔
      ∃ w, lws.lookup kv.1 = some w ∧ valuesEqual floatValue kv.2 w = true := by
  obtain ⟨k, v⟩ := kv
  rw [memberEqual, ← find?_key]
  cases lws.find? fun e => e.1 = k <;> simp

theorem membersEqual_iff {kvs lws : List (String × Json)} :
    membersEqual floatValue kvs lws = true ↔
      ∀ kv ∈ kvs, ∃ w, lws.lookup kv.1 = some w ∧ valuesEqual floatValue kv.2 w = true := by
  induction kvs with
  | nil => simp [membersEqual]
  | cons kv kvs ih => simp [membersEqual, memberEqual_iff, ih]

end

/-! ## Sorted keys -/

theorem keyLe_cons {c d : Char} {cs ds : List Char} :
    keyLe (c :: cs) (d :: ds) = true ↔ c < d ∨ c = d ∧ keyLe cs ds = true := by
  simp [keyLe]

theorem keyLe_total (cs ds : List Char) : keyLe cs ds = true ∨ keyLe ds cs = true := by
  induction cs generalizing ds with
  | nil => exact .inl rfl
  | cons c cs ih =>
    cases ds with
    | nil => exact .inr rfl
    | cons d ds =>
      rw [keyLe_cons, keyLe_cons]
      rcases lt_trichotomy c d with h | h | h
      · exact .inl (.inl h)
      · exact (ih ds).imp (fun hle => .inr ⟨h, hle⟩) fun hle => .inr ⟨h.symm, hle⟩
      · exact .inr (.inl h)

theorem keyLe_trans {as bs cs : List Char} (h : keyLe as bs = true) (h' : keyLe bs cs = true) :
    keyLe as cs = true := by
  induction as generalizing bs cs with
  | nil => rfl
  | cons a as ih =>
    cases bs with
    | nil => nomatch h
    | cons b bs =>
      cases cs with
      | nil => nomatch h'
      | cons c cs =>
        rw [keyLe_cons] at h h' ⊢
        rcases h with hab | ⟨rfl, hle⟩
        · rcases h' with hbc | ⟨rfl, -⟩
          · exact .inl (hab.trans hbc)
          · exact .inl hab
        · exact h'.imp_right fun hle' => ⟨hle'.1, ih hle hle'.2⟩

theorem keyLe_antisymm {as bs : List Char} (h : keyLe as bs = true) (h' : keyLe bs as = true) :
    as = bs := by
  induction as generalizing bs with
  | nil =>
    cases bs with
    | nil => rfl
    | cons b bs => nomatch h'
  | cons a as ih =>
    cases bs with
    | nil => nomatch h
    | cons b bs =>
      rw [keyLe_cons] at h h'
      rcases h with hab | ⟨rfl, hle⟩
      · rcases h' with hba | ⟨rfl, -⟩
        · exact absurd hba (lt_asymm hab)
        · exact absurd hab (lt_irrefl _)
      · rcases h' with hba | ⟨-, hle'⟩
        · exact absurd hba (lt_irrefl _)
        · rw [ih hle hle']

theorem pairwise_sortMembers (kvs : List (String × Json)) :
    (sortMembers kvs).Pairwise fun a b => keyLe (TextEncodings.chars a.1)
      (TextEncodings.chars b.1) = true := by
  have : Std.Total fun a b : String × Json => keyLe (TextEncodings.chars a.1)
      (TextEncodings.chars b.1) = true := ⟨fun a b => keyLe_total _ _⟩
  have : IsTrans (String × Json) fun a b => keyLe (TextEncodings.chars a.1)
      (TextEncodings.chars b.1) = true := ⟨fun a b c => keyLe_trans⟩
  exact List.pairwise_insertionSort _ kvs

/-- Sorting a dictionary leaves of its order nothing. -/
theorem sortMembers_eq_iff {kvs lws : List (String × Json)} (hkvs : (keys kvs).Nodup) :
    sortMembers kvs = sortMembers lws ↔ kvs.Perm lws := by
  have hperm : ∀ l : List (String × Json), (sortMembers l).Perm l := fun l =>
    List.perm_insertionSort _ l
  constructor
  · intro h
    exact (hperm kvs).symm.trans (h ▸ hperm lws)
  · intro h
    refine List.Perm.eq_of_pairwise (fun a b ha hb hab hba => ?_) (pairwise_sortMembers kvs)
      (pairwise_sortMembers lws) ((hperm kvs).trans (h.trans (hperm lws).symm))
    have hkey : a.1 = b.1 := String.toList_injective (by simpa using keyLe_antisymm hab hba)
    have hb' : b ∈ kvs := h.mem_iff.mpr ((hperm lws).mem_iff.mp hb)
    exact List.inj_on_of_nodup_map hkvs ((hperm kvs).mem_iff.mp ha) hb' hkey

theorem sortKeys_arr {vs : List Json} {w : Json} :
    sortKeys (.arr vs) = sortKeys w ↔
      ∃ ws, w = .arr ws ∧ List.Forall₂ (fun v w => sortKeys v = sortKeys w) vs ws := by
  cases w with
  | arr ws =>
    have hitems : vs.map sortKeys = ws.map sortKeys ↔
        List.Forall₂ (fun v w => sortKeys v = sortKeys w) vs ws := by
      rw [← List.forall₂_eq_eq_eq, List.forall₂_map_left_iff, List.forall₂_map_right_iff]
    simp [sortKeys, sortKeysItems_eq_map, hitems]
  | _ => simp [sortKeys]

/-- Two objects have one text when their items do. -/
theorem sortKeys_obj {kvs : List (String × Json)} {w : Json}
    (hv : isDictionary (.obj kvs) = true) (hw : isDictionary w = true) :
    sortKeys (.obj kvs) = sortKeys w ↔
      ∃ lws, w = .obj lws ∧ Agree (fun v w => sortKeys v = sortKeys w) kvs lws := by
  cases w with
  | obj lws =>
    have hkeys : ∀ l : List (String × Json), isDictionary (.obj l) = true →
        (keys (l.map fun kv => (kv.1, sortKeys kv.2))).Nodup := by
      intro l hl
      simpa [keys, Function.comp_def] using (isDictionary_obj.mp hl).1
    have hitems : sortKeys (.obj kvs) = sortKeys (.obj lws) ↔
        Agree (fun v w => sortKeys v = sortKeys w) kvs lws := by
      rw [sortKeys, sortKeys, Json.obj.injEq, sortKeysMembers_eq_map, sortKeysMembers_eq_map,
        sortMembers_eq_iff (hkeys kvs hv), ← agree_eq_iff_perm (hkeys kvs hv) (hkeys lws hw)]
      exact agree_map sortKeys sortKeys
    simp [hitems]
  | _ => simp [sortKeys]

/-- Sorting changes nothing but objects. -/
theorem sortKeys_leaf {v w : Json} (arr : ∀ vs, v ≠ .arr vs) (obj : ∀ kvs, v ≠ .obj kvs) :
    sortKeys v = sortKeys w ↔ w = v := by
  cases v with
  | arr vs => exact absurd rfl (arr vs)
  | obj kvs => exact absurd rfl (obj kvs)
  | _ => rw [eq_comm (a := w)]; cases w <;> simp [sortKeys]

/-! ## Equal documents -/

/-- Booleans count as numbers. -/
def isNumber : Json → Bool
  | .bool _ => true
  | .int _ => true
  | .float _ => true
  | _ => false

section

variable {floatValue : FloatText → Rat} {v w : Json}

theorem valuesEqual_number (hv : isNumber v = true) :
    valuesEqual floatValue v w = true ↔
      isNumber w = true ∧ number floatValue v = number floatValue w := by
  cases v with
  | bool b => cases w <;> simp [valuesEqual, number, isNumber]
  | int n => cases w <;> simp [valuesEqual, number, isNumber]
  | float x => cases w <;> simp [valuesEqual, number, isNumber]
  | _ => cases hv

theorem valuesEqual_null : valuesEqual floatValue .null w = true ↔ w = .null := by
  cases w <;> simp [valuesEqual, number]

theorem valuesEqual_str {s : String} :
    valuesEqual floatValue (.str s) w = true ↔ w = .str s := by
  rw [eq_comm (a := w)]
  cases w <;> simp [valuesEqual, number]

theorem valuesEqual_nonfinite {x : NonFinite} :
    valuesEqual floatValue (.nonfinite x) w = true ↔ w = .nonfinite x ∧ x ≠ .nan := by
  rw [eq_comm (a := w)]
  cases w <;> simp [valuesEqual, number]

theorem valuesEqual_arr {vs : List Json} :
    valuesEqual floatValue (.arr vs) w = true ↔
      ∃ ws, w = .arr ws ∧ List.Forall₂ (fun v w => valuesEqual floatValue v w = true) vs ws := by
  cases w <;> simp [valuesEqual, number, itemsEqual_iff]

/-- Objects are equal when they agree as dictionaries. -/
theorem valuesEqual_obj {kvs : List (String × Json)} (hv : isDictionary (.obj kvs) = true)
    (hw : isDictionary w = true) :
    valuesEqual floatValue (.obj kvs) w = true ↔
      ∃ lws, w = .obj lws ∧ Agree (fun v w => valuesEqual floatValue v w = true) kvs lws := by
  cases w with
  | obj lws =>
    rw [isDictionary_obj] at hv hw
    simp [valuesEqual, membersEqual_iff, agree_iff_length hv.1 hw.1]
  | _ => simp [valuesEqual, number]

theorem valuesEqual_refl (hstandard : isStandard v = true) (hv : isDictionary v = true) :
    valuesEqual floatValue v v = true := by
  induction v using Json.induct with
  | null => rfl
  | bool b => exact (valuesEqual_number rfl).mpr ⟨rfl, rfl⟩
  | int n => exact (valuesEqual_number rfl).mpr ⟨rfl, rfl⟩
  | float x => exact (valuesEqual_number rfl).mpr ⟨rfl, rfl⟩
  | nonfinite x => nomatch hstandard
  | str s => exact valuesEqual_str.mpr rfl
  | arr vs ih =>
    rw [isStandard_arr] at hstandard
    rw [isDictionary_arr] at hv
    exact valuesEqual_arr.mpr ⟨vs, rfl, List.forall₂_same.mpr fun v hmem =>
      ih v hmem (hstandard v hmem) (hv v hmem)⟩
  | obj kvs ih =>
    rw [isStandard_obj] at hstandard
    refine (valuesEqual_obj hv hv).mpr ⟨kvs, rfl, .refl fun kv hmem => ?_⟩
    exact ih kv hmem (hstandard kv hmem) ((isDictionary_obj.mp hv).2 kv hmem)

theorem valuesEqual_symm_number (hv : isNumber v = true)
    (h : valuesEqual floatValue v w = true) : valuesEqual floatValue w v = true := by
  obtain ⟨hw, hvalue⟩ := (valuesEqual_number hv).mp h
  exact (valuesEqual_number hw).mpr ⟨hv, hvalue.symm⟩

theorem valuesEqual_symm (hv : isDictionary v = true) (hw : isDictionary w = true)
    (h : valuesEqual floatValue v w = true) : valuesEqual floatValue w v = true := by
  induction v using Json.induct generalizing w with
  | null =>
    obtain rfl := valuesEqual_null.mp h
    exact h
  | bool b => exact valuesEqual_symm_number rfl h
  | int n => exact valuesEqual_symm_number rfl h
  | float x => exact valuesEqual_symm_number rfl h
  | nonfinite x =>
    obtain ⟨rfl, -⟩ := valuesEqual_nonfinite.mp h
    exact h
  | str s =>
    obtain rfl := valuesEqual_str.mp h
    exact h
  | arr vs ih =>
    obtain ⟨ws, rfl, hitems⟩ := valuesEqual_arr.mp h
    rw [isDictionary_arr] at hv hw
    refine valuesEqual_arr.mpr ⟨vs, rfl, List.Forall₂.flip ?_⟩
    refine (forall₂_and_mem hitems).imp fun v w hvw => ?_
    exact ih v hvw.2.1 (hv v hvw.2.1) (hw w hvw.2.2) hvw.1
  | obj kvs ih =>
    obtain ⟨lws, rfl, hagree⟩ := (valuesEqual_obj hv hw).mp h
    refine (valuesEqual_obj hw hv).mpr ⟨kvs, rfl, hagree.swap.imp fun k w v hw' hv' h => ?_⟩
    rw [isDictionary_obj] at hv hw
    exact ih (k, v) hv' (hv.2 _ hv') (hw.2 _ hw') h

/-- Documents with one canonical text are equal. -/
theorem valuesEqual_of_sortKeys (hstandard : isStandard v = true) (hv : isDictionary v = true)
    (hw : isDictionary w = true) (h : sortKeys v = sortKeys w) :
    valuesEqual floatValue v w = true := by
  induction v using Json.induct generalizing w with
  | arr vs ih =>
    obtain ⟨ws, rfl, hitems⟩ := sortKeys_arr.mp h
    rw [isStandard_arr] at hstandard
    rw [isDictionary_arr] at hv hw
    refine valuesEqual_arr.mpr ⟨ws, rfl, (forall₂_and_mem hitems).imp fun v w hvw => ?_⟩
    exact ih v hvw.2.1 (hstandard v hvw.2.1) (hv v hvw.2.1) (hw w hvw.2.2) hvw.1
  | obj kvs ih =>
    obtain ⟨lws, rfl, hagree⟩ := (sortKeys_obj hv hw).mp h
    refine (valuesEqual_obj hv hw).mpr ⟨lws, rfl, hagree.imp fun k v w hv' hw' h => ?_⟩
    rw [isStandard_obj] at hstandard
    rw [isDictionary_obj] at hv hw
    exact ih (k, v) hv' (hstandard _ hv') (hv.2 _ hv') (hw.2 _ hw') h
  | _ =>
    obtain rfl := (sortKeys_leaf (by simp) (by simp)).mp h
    exact valuesEqual_refl hstandard hv

end

/-! ## Places -/

inductive Step where
  | key (k : String)
  | item (i : ℕ)
  deriving DecidableEq

/-- What a document holds at a path. -/
def valueAt : Json → List Step → Option Json
  | v, [] => some v
  | .obj kvs, .key k :: path => (kvs.lookup k).bind fun v => valueAt v path
  | .arr vs, .item i :: path => vs[i]?.bind fun v => valueAt v path
  | _, _ :: _ => none
termination_by structural _ path => path

/-- At every path where both documents have a number it is written alike. -/
def SameNumbers (v w : Json) : Prop :=
  ∀ path x y, valueAt v path = some x → valueAt w path = some y → isNumber x = true →
    isNumber y = true → x = y

section

variable {floatValue : FloatText → Rat} {v w : Json}

theorem SameNumbers.refl (v : Json) : SameNumbers v v := by
  intro path x y hx hy _ _
  exact Option.some.inj (hx.symm.trans hy)

theorem sameNumbers_number (hv : isNumber v = true) (hw : isNumber w = true) :
    SameNumbers v w ↔ v = w := by
  constructor
  · exact fun h => h [] v w rfl rfl hv hw
  · rintro rfl
    exact .refl v

theorem sameNumbers_arr {vs ws : List Json} :
    SameNumbers (.arr vs) (.arr ws) ↔
      ∀ (i : ℕ) (v w : Json), vs[i]? = some v → ws[i]? = some w → SameNumbers v w := by
  constructor
  · intro h i v w hv hw path x y hx hy
    exact h (.item i :: path) x y (by simp [valueAt, hv, hx]) (by simp [valueAt, hw, hy])
  · intro h path x y hx hy hnx hny
    cases path with
    | nil =>
      cases hx
      nomatch hnx
    | cons step path =>
      cases step with
      | key k => nomatch hx
      | item i =>
        obtain ⟨v, hv, hx⟩ := Option.bind_eq_some_iff.mp hx
        obtain ⟨w, hw, hy⟩ := Option.bind_eq_some_iff.mp hy
        exact h i v w hv hw path x y hx hy hnx hny

theorem sameNumbers_obj {kvs lws : List (String × Json)} :
    SameNumbers (.obj kvs) (.obj lws) ↔
      ∀ k v w, kvs.lookup k = some v → lws.lookup k = some w → SameNumbers v w := by
  constructor
  · intro h k v w hv hw path x y hx hy
    exact h (.key k :: path) x y (by simp [valueAt, hv, hx]) (by simp [valueAt, hw, hy])
  · intro h path x y hx hy hnx hny
    cases path with
    | nil =>
      cases hx
      nomatch hnx
    | cons step path =>
      cases step with
      | item i => nomatch hx
      | key k =>
        obtain ⟨v, hv, hx⟩ := Option.bind_eq_some_iff.mp hx
        obtain ⟨w, hw, hy⟩ := Option.bind_eq_some_iff.mp hy
        exact h k v w hv hw path x y hx hy hnx hny

/-- Of equal documents the canonical texts show how the numbers are written. -/
theorem sortKeys_eq_iff (hv : isDictionary v = true) (hw : isDictionary w = true)
    (h : valuesEqual floatValue v w = true) : sortKeys v = sortKeys w ↔ SameNumbers v w := by
  have number : ∀ v w, isNumber v = true → valuesEqual floatValue v w = true →
      (sortKeys v = sortKeys w ↔ SameNumbers v w) := by
    intro v w hnumber h
    obtain ⟨hw, -⟩ := (valuesEqual_number hnumber).mp h
    rw [sameNumbers_number hnumber hw, sortKeys_leaf, eq_comm]
    · rintro vs rfl
      nomatch hnumber
    · rintro kvs rfl
      nomatch hnumber
  induction v using Json.induct generalizing w with
  | null =>
    obtain rfl := valuesEqual_null.mp h
    exact iff_of_true rfl (.refl _)
  | bool b => exact number _ w rfl h
  | int n => exact number _ w rfl h
  | float x => exact number _ w rfl h
  | nonfinite x =>
    obtain ⟨rfl, -⟩ := valuesEqual_nonfinite.mp h
    exact iff_of_true rfl (.refl _)
  | str s =>
    obtain rfl := valuesEqual_str.mp h
    exact iff_of_true rfl (.refl _)
  | arr vs ih =>
    obtain ⟨ws, rfl, hitems⟩ := valuesEqual_arr.mp h
    obtain ⟨hlength, hitems⟩ := forall₂_iff_getElem?.mp hitems
    rw [isDictionary_arr] at hv hw
    rw [sortKeys_arr, sameNumbers_arr]
    simp only [Json.arr.injEq, exists_eq_left', forall₂_iff_getElem?, hlength, true_and]
    refine forall_congr' fun i => forall_congr' fun v => forall_congr' fun w =>
      forall_congr' fun hv' => forall_congr' fun hw' => ?_
    exact ih v (List.mem_of_getElem? hv') (hv v (List.mem_of_getElem? hv'))
      (hw w (List.mem_of_getElem? hw')) (hitems i v w hv' hw')
  | obj kvs ih =>
    obtain ⟨lws, rfl, hagree⟩ := (valuesEqual_obj hv hw).mp h
    obtain ⟨hkeys, hvalues⟩ := agree_iff.mp hagree
    rw [sortKeys_obj hv hw, sameNumbers_obj]
    rw [isDictionary_obj] at hv hw
    simp only [Json.obj.injEq, exists_eq_left', agree_iff, hkeys, implies_true, true_and]
    refine forall_congr' fun k => forall_congr' fun v => forall_congr' fun w =>
      forall_congr' fun hv' => forall_congr' fun hw' => ?_
    exact ih (k, v) (mem_of_lookup hv') (hv.2 _ (mem_of_lookup hv'))
      (hw.2 _ (mem_of_lookup hw')) (hvalues k v w hv' hw')

/-- Equality and the canonical text tell two documents apart alike, but for equal documents that
write a number differently. -/
theorem valuesEqual_iff_dumps (hstandard : isStandard v = true) (hv : isDictionary v = true)
    (hw : isDictionary w = true) :
    (valuesEqual floatValue v w = true ↔ dumps v = dumps w) ↔
      (valuesEqual floatValue v w = true → SameNumbers v w) := by
  rw [dumps_eq_iff]
  constructor
  · intro h heq
    exact (sortKeys_eq_iff hv hw heq).mp (h.mp heq)
  · intro h
    constructor
    · exact fun heq => (sortKeys_eq_iff hv hw heq).mpr (h heq)
    · exact fun htext => valuesEqual_of_sortKeys hstandard hv hw htext

end

end NexusEngine.JsonEquality
