import NexusEngine.TextEncodings
import Mathlib.Algebra.BigOperators.Group.List.Basic
import Mathlib.Algebra.GroupWithZero.Nat
import Mathlib.Data.List.DropRight
import Mathlib.Data.List.Nodup

/-!
# Text operations of the language

White space and `repr`. What the interpreter's character tables say beyond that is collected in
`CharacterTables`, on which nothing here depends but the operations that consult it.
-/

namespace NexusEngine.PythonText

open TextEncodings

/-- What the interpreter's tables say: the lower case of a text, and of a character whether it is
a digit and whether it can be printed. -/
structure CharacterTables where
  lower : List Char → List Char
  isDigit : Char → Bool
  isPrintable : Char → Bool

def isSpace (c : Char) : Bool :=
  let n := c.toNat
  (9 ≤ n && n ≤ 13) || (28 ≤ n && n ≤ 32) || n == 0x85 || n == 0xa0 || n == 0x1680 ||
    (0x2000 ≤ n && n ≤ 0x200a) || n == 0x2028 || n == 0x2029 || n == 0x202f || n == 0x205f ||
    n == 0x3000

def strip (s : List Char) : List Char :=
  ((s.dropWhile isSpace).reverse.dropWhile isSpace).reverse

/-- A stripped text has no white space around it. -/
theorem strip_strip (s : List Char) : strip (strip s) = strip s := by
  change ((((s.dropWhile isSpace).rdropWhile isSpace).dropWhile isSpace).rdropWhile isSpace) =
    (s.dropWhile isSpace).rdropWhile isSpace
  have hfront : ((s.dropWhile isSpace).rdropWhile isSpace).dropWhile isSpace =
      (s.dropWhile isSpace).rdropWhile isSpace := by
    cases hstripped : (s.dropWhile isSpace).rdropWhile isSpace with
    | nil => rfl
    | cons c rest =>
      obtain ⟨blanks, hblanks⟩ := List.rdropWhile_prefix isSpace (l := s.dropWhile isSpace)
      have hhead := List.head?_dropWhile_not isSpace s
      rw [← hblanks, hstripped, List.cons_append, List.head?_cons] at hhead
      exact List.dropWhile_cons_of_neg (by simpa using hhead)
  rw [hfront, List.rdropWhile_idempotent]

def hexEscape (letter : Char) (width n : ℕ) : List Char :=
  '\\' :: letter :: (List.range width).map fun i => hexDigit (n >>> (4 * (width - 1 - i)) % 16)

/-- One character of `repr`. -/
def reprChar (isPrintable : Char → Bool) (quote c : Char) : List Char :=
  if c = quote ∨ c = '\\' then ['\\', c]
  else if c = '\t' then ['\\', 't']
  else if c = '\n' then ['\\', 'n']
  else if c = '\r' then ['\\', 'r']
  else if c.toNat < 32 ∨ c.toNat = 127 then hexEscape 'x' 2 c.toNat
  else if c.toNat < 127 ∨ isPrintable c = true then [c]
  else if c.toNat < 0x100 then hexEscape 'x' 2 c.toNat
  else if c.toNat < 0x10000 then hexEscape 'u' 4 c.toNat
  else hexEscape 'U' 8 c.toNat

def reprText (isPrintable : Char → Bool) (s : List Char) : List Char :=
  let quote := if s.contains '\'' && !s.contains '"' then '"' else '\''
  quote :: (s.flatMap (reprChar isPrintable quote) ++ [quote])

/-- The `repr` of a list of texts. -/
def reprList (isPrintable : Char → Bool) (texts : List (List Char)) : List Char :=
  '[' :: ([',', ' '].intercalate (texts.map (reprText isPrintable)) ++ [']'])

theorem hexEscape_no_nul {letter : Char} (hletter : letter ≠ Char.ofNat 0) (width n : ℕ) :
    Char.ofNat 0 ∉ hexEscape letter width n := by
  have hdigit : ∀ n < 16, Char.ofNat 0 ≠ hexDigit n := by decide
  rw [hexEscape]
  simp only [List.mem_cons, List.mem_map, not_or, not_exists, not_and]
  refine ⟨by decide, hletter.symm, ?_⟩
  intro i _ heq
  exact hdigit _ (Nat.mod_lt _ (by decide)) heq.symm

/-- No character of a `repr` is the null character. -/
theorem reprChar_no_nul {isPrintable : Char → Bool} {quote : Char} (hquote : quote ≠ Char.ofNat 0)
    (c : Char) : Char.ofNat 0 ∉ reprChar isPrintable quote c := by
  rw [reprChar]
  split
  · next hescaped =>
    have hc : c ≠ Char.ofNat 0 := by
      rcases hescaped with rfl | rfl
      · exact hquote
      · decide
    simp only [List.mem_cons, List.not_mem_nil, or_false, not_or]
    exact ⟨by decide, hc.symm⟩
  split
  · decide
  split
  · decide
  split
  · decide
  split
  · exact hexEscape_no_nul (by decide) 2 _
  split
  · next hcontrol _ =>
    intro hmem
    have hnul := List.mem_singleton.mp hmem
    rw [← hnul] at hcontrol
    exact hcontrol (.inl (by decide))
  split
  · exact hexEscape_no_nul (by decide) 2 _
  split
  · exact hexEscape_no_nul (by decide) 4 _
  · exact hexEscape_no_nul (by decide) 8 _

theorem reprText_no_nul (isPrintable : Char → Bool) (s : List Char) :
    Char.ofNat 0 ∉ reprText isPrintable s := by
  have hquote : (if s.contains '\'' && !s.contains '"' then '"' else '\'') ≠ Char.ofNat 0 := by
    split
    · decide
    · decide
  rw [reprText]
  simp only [List.mem_cons, List.mem_append, List.mem_flatMap, List.not_mem_nil, or_false, not_or,
    not_exists, not_and]
  exact ⟨hquote.symm, fun c _ => reprChar_no_nul hquote c, hquote.symm⟩

/-- A text of digits, and not the empty one. -/
def CharacterTables.isdigit (tables : CharacterTables) (s : List Char) : Bool :=
  !s.isEmpty && s.all tables.isDigit

/-! ## Groups -/

/-- Runs of neighbours with one key. -/
def groupby {α κ : Type} [DecidableEq κ] (key : α → κ) : List α → List (κ × List α)
  | [] => []
  | a :: as =>
    match groupby key as with
    | [] => [(key a, [a])]
    | (k, group) :: groups =>
      if key a = k then (k, a :: group) :: groups else (key a, [a]) :: (k, group) :: groups

theorem groupby_map {α β κ : Type} [DecidableEq κ] (f : α → β) (key : β → κ) (as : List α) :
    groupby key (as.map f) =
      (groupby (fun a => key (f a)) as).map fun g => (g.1, g.2.map f) := by
  induction as with
  | nil => rfl
  | cons a as ih =>
    rw [List.map_cons, groupby, ih, groupby]
    cases groupby (fun a => key (f a)) as with
    | nil => rfl
    | cons g groups =>
      rw [List.map_cons]
      by_cases hkey : key (f a) = g.1
      · simp [hkey]
      · simp [hkey]

section

variable {α κ : Type} [DecidableEq κ] {key : α → κ}

/-- The groups in a row are the list. -/
theorem groupby_flatten (as : List α) :
    (groupby key as).flatMap Prod.snd = as := by
  induction as with
  | nil => rfl
  | cons a as ih =>
    rw [groupby]
    cases hgroups : groupby key as with
    | nil =>
      rw [hgroups] at ih
      rw [← ih]
      rfl
    | cons g groups =>
      obtain ⟨k, group⟩ := g
      rw [hgroups, List.flatMap_cons] at ih
      by_cases hkey : key a = k
      · simp only [hkey, if_true, List.flatMap_cons, List.cons_append, ih]
      · simp only [hkey, if_false, List.flatMap_cons, List.singleton_append, ih]

theorem groupby_key_mem {as : List α} {k : κ} (h : k ∈ (groupby key as).map Prod.fst) :
    k ∈ as.map key := by
  induction as with
  | nil => exact h
  | cons a as ih =>
    rw [groupby] at h
    rw [List.map_cons, List.mem_cons]
    cases hgroups : groupby key as with
    | nil =>
      rw [hgroups] at h
      exact .inl (List.mem_singleton.mp h)
    | cons g groups =>
      obtain ⟨k', group⟩ := g
      rw [hgroups] at h ih
      by_cases hkey : key a = k'
      · simp only [hkey, if_true] at h
        exact .inr (ih h)
      · simp only [hkey, if_false, List.map_cons, List.mem_cons] at h
        rcases h with h | h
        · exact .inl h
        · exact .inr (ih (List.mem_cons.mpr h))

/-- Where the keys come in order, each has one group. -/
theorem groupby_keys_nodup {r : κ → κ → Prop} (antisymm : ∀ k k', r k k' → r k' k → k = k')
    {as : List α} (h : (as.map key).Pairwise r) : ((groupby key as).map Prod.fst).Nodup := by
  have hordered : ((groupby key as).map Prod.fst).Pairwise fun k k' => r k k' ∧ k ≠ k' := by
    induction as with
    | nil => exact .nil
    | cons a as ih =>
      rw [List.map_cons, List.pairwise_cons] at h
      have hrest := ih h.2
      have hahead : ∀ k ∈ (groupby key as).map Prod.fst, r (key a) k :=
        fun k hk => h.1 k (groupby_key_mem hk)
      rw [groupby]
      cases hgroups : groupby key as with
      | nil => exact List.pairwise_singleton _ _
      | cons g groups =>
        obtain ⟨k, group⟩ := g
        rw [hgroups, List.map_cons] at hrest hahead
        by_cases hkey : key a = k
        · simpa only [hkey, if_true, List.map_cons] using hrest
        · simp only [hkey, if_false, List.map_cons]
          apply List.Pairwise.cons _ hrest
          intro k' hk'
          refine ⟨hahead k' hk', fun heq => hkey ?_⟩
          rcases List.mem_cons.mp hk' with rfl | hlater
          · exact heq
          · have hbetween : r k k' := ((List.pairwise_cons.mp hrest).1 k' hlater).1
            rw [← heq] at hbetween
            exact antisymm _ _ (hahead k List.mem_cons_self) hbetween
  exact hordered.imp fun h => h.2

end

/-! ## Dictionaries

A dictionary is the list of its items in the order in which the keys were inserted. -/

def dictSet {κ ν : Type} [DecidableEq κ] (d : List (κ × ν)) (k : κ) (v : ν) : List (κ × ν) :=
  if k ∈ d.map Prod.fst then d.map fun e => if e.1 = k then (k, v) else e else d ++ [(k, v)]

def dictGet {κ ν : Type} [DecidableEq κ] (d : List (κ × ν)) (k : κ) (default : ν) : ν :=
  ((d.find? fun e => e.1 = k).map Prod.snd).getD default

section

variable {κ ν : Type} [DecidableEq κ]

theorem dictSet_new {d : List (κ × ν)} {k : κ} {v : ν} (h : k ∉ d.map Prod.fst) :
    dictSet d k v = d ++ [(k, v)] := if_neg h

/-- Items with distinct keys are the dictionary that they are set in. -/
theorem foldl_dictSet {α : Type} (key : α → κ) (value : α → ν) {d : List (κ × ν)} {as : List α}
    (h : (d.map Prod.fst ++ as.map key).Nodup) :
    as.foldl (fun d a => dictSet d (key a) (value a)) d =
      d ++ as.map fun a => (key a, value a) := by
  induction as generalizing d with
  | nil => exact (List.append_nil d).symm
  | cons a as ih =>
    have hnew : key a ∉ d.map Prod.fst := by
      intro hmem
      exact (List.nodup_append.mp h).2.2 _ hmem _ List.mem_cons_self rfl
    rw [List.foldl_cons, dictSet_new hnew, ih]
    · rw [List.append_assoc, List.singleton_append, List.map_cons]
    · rw [List.map_cons, List.append_cons] at h
      simpa using h

theorem keys_dictSet (d : List (κ × ν)) (k : κ) (v : ν) :
    (dictSet d k v).map Prod.fst =
      if k ∈ d.map Prod.fst then d.map Prod.fst else d.map Prod.fst ++ [k] := by
  rw [dictSet]
  split
  · rw [List.map_map]
    apply List.map_congr_left
    intro e _
    by_cases he : e.1 = k
    · simp [he]
    · simp [he]
  · simp

theorem nodup_dictSet {d : List (κ × ν)} (h : (d.map Prod.fst).Nodup) (k : κ) (v : ν) :
    ((dictSet d k v).map Prod.fst).Nodup := by
  rw [keys_dictSet]
  split
  · exact h
  · next hnew => simpa using List.Nodup.append h (List.nodup_singleton k) (by simpa using hnew)

theorem mem_dictSet {d : List (κ × ν)} {k : κ} {v : ν} {e : κ × ν} (h : e ∈ dictSet d k v) :
    e ∈ d ∨ e = (k, v) := by
  unfold dictSet at h
  split at h
  · obtain ⟨e', he', rfl⟩ := List.mem_map.mp h
    by_cases hk : e'.1 = k
    · simp [hk]
    · simpa [hk] using .inl he'
  · simpa using h

/-- The item of the key stands first. -/
theorem dictSet_cons_self {d : List (κ × ν)} {e : κ × ν} (h : e.1 ∉ d.map Prod.fst) (v : ν) :
    dictSet (e :: d) e.1 v = (e.1, v) :: d := by
  have hkept : d.map (fun e' => if e'.1 = e.1 then (e.1, v) else e') = d := by
    apply (List.map_congr_left _).trans (List.map_id' d)
    intro e' he'
    apply if_neg
    intro hk
    exact h (hk ▸ List.mem_map_of_mem he')
  simp [dictSet, hkept]

theorem dictSet_cons_ne {d : List (κ × ν)} {e : κ × ν} {k : κ} (h : e.1 ≠ k) (v : ν) :
    dictSet (e :: d) k v = e :: dictSet d k v := by
  have hne : k ≠ e.1 := Ne.symm h
  simp only [dictSet, List.map_cons, List.mem_cons, hne, false_or, h, if_false]
  split <;> rfl

theorem dictGet_cons_self (d : List (κ × ν)) (e : κ × ν) (default : ν) :
    dictGet (e :: d) e.1 default = e.2 := by
  simp [dictGet]

theorem dictGet_cons_ne {d : List (κ × ν)} {e : κ × ν} {k : κ} (h : e.1 ≠ k) (default : ν) :
    dictGet (e :: d) k default = dictGet d k default := by
  simp [dictGet, h]

/-- Setting a key replaces its share of a sum over the values. -/
theorem sum_dictSet (f : ν → ℕ) {d : List (κ × ν)} (h : (d.map Prod.fst).Nodup) (k : κ) (v : ν)
    {default : ν} (hdefault : f default = 0) :
    ((dictSet d k v).map fun e => f e.2).sum + f (dictGet d k default) =
      (d.map fun e => f e.2).sum + f v := by
  induction d with
  | nil => simp [dictSet, dictGet, hdefault]
  | cons e d ih =>
    obtain ⟨hnot, hnodup⟩ := List.nodup_cons.mp h
    by_cases he : e.1 = k
    · subst he
      rw [dictSet_cons_self hnot, dictGet_cons_self, List.map_cons, List.sum_cons, List.map_cons,
        List.sum_cons]
      dsimp only
      omega
    · have hrest := ih hnodup
      rw [dictSet_cons_ne he, dictGet_cons_ne he, List.map_cons, List.sum_cons, List.map_cons,
        List.sum_cons]
      omega

end

/-! ## Tables for examples -/

/-- Tables that are right for ASCII. -/
def asciiTables : CharacterTables where
  lower s := s.map fun c => if 'A' ≤ c ∧ c ≤ 'Z' then Char.ofNat (c.toNat + 32) else c
  isDigit c := c.isDigit
  isPrintable c := 32 ≤ c.toNat && c.toNat < 127

example : reprText asciiTables.isPrintable "it's\n".toList = "\"it's\\n\"".toList := by
  decide +kernel

end NexusEngine.PythonText
