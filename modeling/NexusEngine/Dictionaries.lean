import Mathlib.Data.List.Basic
import Mathlib.Data.List.Nodup
import Mathlib.Data.List.Perm.Subperm

/-!
# Dictionaries

A dictionary is a list of items with distinct keys. The order of the items is not part of its
meaning: two dictionaries agree when they have the same keys and related values under each.
-/

namespace NexusEngine.Dictionaries

variable {κ α β γ : Type} [DecidableEq κ]

def keys (d : List (κ × α)) : List κ := d.map Prod.fst

/-! ## Values by key -/

theorem lookup_cons (e : κ × α) (d : List (κ × α)) (k : κ) :
    (e :: d).lookup k = if e.1 = k then some e.2 else d.lookup k := by
  rw [List.lookup_cons]
  by_cases h : e.1 = k
  · rw [if_pos h, h, beq_self_eq_true]
  · rw [if_neg h, beq_eq_false_iff_ne.mpr (Ne.symm h)]

theorem find?_key (d : List (κ × α)) (k : κ) :
    (d.find? fun e => e.1 = k).map Prod.snd = d.lookup k := by
  induction d with
  | nil => rfl
  | cons e d ih =>
    rw [lookup_cons, List.find?_cons]
    by_cases h : e.1 = k
    · simp [h]
    · simpa [h] using ih

theorem mem_of_lookup {d : List (κ × α)} {k : κ} {v : α} (h : d.lookup k = some v) :
    (k, v) ∈ d := by
  obtain ⟨front, back, rfl, -⟩ := List.lookup_eq_some_iff.mp h
  simp

theorem lookup_of_mem {d : List (κ × α)} (hd : (keys d).Nodup) {k : κ} {v : α}
    (h : (k, v) ∈ d) : d.lookup k = some v := by
  induction d with
  | nil => nomatch h
  | cons e d ih =>
    obtain ⟨hfresh, hd⟩ := List.nodup_cons.mp hd
    rw [lookup_cons]
    rcases List.mem_cons.mp h with rfl | h
    · rw [if_pos rfl]
    · have hne : e.1 ≠ k := fun heq => hfresh (heq ▸ List.mem_map_of_mem h)
      rw [if_neg hne, ih hd h]

theorem lookup_eq_some {d : List (κ × α)} (hd : (keys d).Nodup) {k : κ} {v : α} :
    d.lookup k = some v ↔ (k, v) ∈ d := ⟨mem_of_lookup, fun h => lookup_of_mem hd h⟩

theorem lookup_eq_none {d : List (κ × α)} {k : κ} : d.lookup k = none ↔ k ∉ keys d := by
  induction d with
  | nil => simp [keys]
  | cons e d ih =>
    rw [lookup_cons, keys, List.map_cons, List.mem_cons, ← keys]
    by_cases h : e.1 = k
    · simp [h]
    · simp [h, ih, Ne.symm h]

theorem mem_keys {d : List (κ × α)} {k : κ} : k ∈ keys d ↔ ∃ v, d.lookup k = some v := by
  rw [← Option.isSome_iff_exists, Option.isSome_iff_ne_none, ne_eq, lookup_eq_none, not_not]

theorem lookup_map (f : κ → α → β) (d : List (κ × α)) (k : κ) :
    (d.map fun kv => (kv.1, f kv.1 kv.2)).lookup k = (d.lookup k).map (f k) := by
  induction d with
  | nil => rfl
  | cons e d ih =>
    rw [List.map_cons, lookup_cons, lookup_cons, ih]
    by_cases h : e.1 = k
    · simp [h]
    · simp [h]

theorem lookup_filter (p : κ → Bool) (d : List (κ × α)) (k : κ) :
    (d.filter fun kv => p kv.1).lookup k = if p k = true then d.lookup k else none := by
  induction d with
  | nil => simp
  | cons e d ih =>
    rw [List.filter_cons, lookup_cons]
    by_cases h : e.1 = k
    · subst h
      cases hp : p e.1 with
      | true => simp [lookup_cons]
      | false => simpa [hp] using ih
    · cases hp : p e.1 with
      | true => simpa [h, lookup_cons] using ih
      | false => simpa [h] using ih

/-! ## Agreement -/

/-- At every key both have related values, or neither has a value. -/
def Agree (R : α → β → Prop) (d : List (κ × α)) (e : List (κ × β)) : Prop :=
  ∀ k, Option.Rel R (d.lookup k) (e.lookup k)

section

variable {R : α → β → Prop} {d : List (κ × α)} {e : List (κ × β)}

theorem rel_iff {a : Option α} {b : Option β} :
    Option.Rel R a b ↔ (a = none ↔ b = none) ∧ ∀ v w, a = some v → b = some w → R v w := by
  cases a <;> cases b <;> simp

theorem agree_iff : Agree R d e ↔ (∀ k, k ∈ keys d ↔ k ∈ keys e) ∧
    ∀ k v w, d.lookup k = some v → e.lookup k = some w → R v w := by
  simp only [Agree, rel_iff, lookup_eq_none, forall_and, not_iff_not]

theorem Agree.refl {R : α → α → Prop} {d : List (κ × α)} (h : ∀ kv ∈ d, R kv.2 kv.2) :
    Agree R d d := by
  refine agree_iff.mpr ⟨fun _ => Iff.rfl, fun k v w hv hw => ?_⟩
  rw [hv] at hw
  obtain rfl := Option.some.inj hw
  exact h (k, v) (mem_of_lookup hv)

theorem Agree.imp {Q : α → β → Prop} (h : Agree R d e)
    (himp : ∀ k v w, (k, v) ∈ d → (k, w) ∈ e → R v w → Q v w) : Agree Q d e := by
  obtain ⟨hkeys, hvalues⟩ := agree_iff.mp h
  refine agree_iff.mpr ⟨hkeys, fun k v w hv hw => ?_⟩
  exact himp k v w (mem_of_lookup hv) (mem_of_lookup hw) (hvalues k v w hv hw)

theorem Agree.swap (h : Agree R d e) : Agree (fun w v => R v w) e d := by
  obtain ⟨hkeys, hvalues⟩ := agree_iff.mp h
  exact agree_iff.mpr ⟨fun k => (hkeys k).symm, fun k w v hw hv => hvalues k v w hv hw⟩

theorem agree_map {δ : Type} {Q : γ → δ → Prop} (f : α → γ) (g : β → δ) :
    Agree Q (d.map fun kv => (kv.1, f kv.2)) (e.map fun kv => (kv.1, g kv.2)) ↔
      Agree (fun v w => Q (f v) (g w)) d e := by
  refine forall_congr' fun k => ?_
  rw [lookup_map (fun _ => f), lookup_map (fun _ => g)]
  cases d.lookup k <;> cases e.lookup k <;> simp

/-- Dictionaries of one size agree when every item of the first has a partner in the second. -/
theorem agree_iff_length (hd : (keys d).Nodup) (he : (keys e).Nodup) :
    Agree R d e ↔ d.length = e.length ∧ ∀ kv ∈ d, ∃ w, e.lookup kv.1 = some w ∧ R kv.2 w := by
  constructor
  · intro h
    obtain ⟨hkeys, hvalues⟩ := agree_iff.mp h
    have hperm : (keys d).Perm (keys e) := (List.perm_ext_iff_of_nodup hd he).mpr hkeys
    refine ⟨by simpa [keys] using hperm.length_eq, fun kv hkv => ?_⟩
    obtain ⟨w, hw⟩ := mem_keys.mp ((hkeys kv.1).mp (List.mem_map_of_mem hkv))
    exact ⟨w, hw, hvalues kv.1 kv.2 w (lookup_of_mem hd hkv) hw⟩
  · rintro ⟨hlength, hpartner⟩
    have hsub : keys d ⊆ keys e := by
      intro k hk
      obtain ⟨v, hv⟩ := mem_keys.mp hk
      obtain ⟨w, hw, -⟩ := hpartner (k, v) (mem_of_lookup hv)
      exact mem_keys.mpr ⟨w, hw⟩
    have hperm : (keys d).Perm (keys e) :=
      (List.subperm_of_subset hd hsub).perm_of_length_le (by simp [keys, hlength])
    refine agree_iff.mpr ⟨fun k => hperm.mem_iff, fun k v w hv hw => ?_⟩
    obtain ⟨w', hw', hR⟩ := hpartner (k, v) (mem_of_lookup hv)
    rw [hw] at hw'
    exact Option.some.inj hw' ▸ hR

/-- Dictionaries with equal values are the same list in another order. -/
theorem agree_eq_iff_perm {d e : List (κ × α)} (hd : (keys d).Nodup) (he : (keys e).Nodup) :
    Agree Eq d e ↔ d.Perm e := by
  rw [List.perm_ext_iff_of_nodup hd.of_map he.of_map]
  constructor
  · rintro h ⟨k, v⟩
    have hk := h k
    rw [← lookup_eq_some hd, ← lookup_eq_some he]
    generalize d.lookup k = a, e.lookup k = b at hk
    cases hk with
    | none => exact Iff.rfl
    | some heq => rw [heq]
  · intro h k
    have hk : d.lookup k = e.lookup k := by
      ext v
      rw [lookup_eq_some hd, lookup_eq_some he, h]
    rw [hk]
    cases e.lookup k with
    | none => exact .none
    | some v => exact .some rfl

end

/-! ## Patches -/

/-- Items to add, items to take away, and values to replace by others. -/
structure Patch (κ α : Type) where
  added : List (κ × α)
  removed : List (κ × α)
  changed : List (κ × α × α)

namespace Patch

def apply (p : Patch κ α) (d : List (κ × α)) : List (κ × α) :=
  ((d.filter fun kv => kv.1 ∉ keys p.removed).map fun kv =>
    (kv.1, ((p.changed.lookup kv.1).map Prod.snd).getD kv.2)) ++ p.added

def swap (p : Patch κ α) : Patch κ α where
  added := p.removed
  removed := p.added
  changed := p.changed.map fun kvw => (kvw.1, kvw.2.2, kvw.2.1)

/-- The patch tells how the second dictionary differs from the first, up to a test of values. -/
structure Between (same : α → α → Bool) (p : Patch κ α) (d e : List (κ × α)) : Prop where
  addedKeys : (keys p.added).Nodup
  removedKeys : (keys p.removed).Nodup
  changedKeys : (keys p.changed).Nodup
  added : ∀ k v, (k, v) ∈ p.added ↔ d.lookup k = none ∧ e.lookup k = some v
  removed : ∀ k v, (k, v) ∈ p.removed ↔ d.lookup k = some v ∧ e.lookup k = none
  changed : ∀ k v w, (k, v, w) ∈ p.changed ↔
    d.lookup k = some v ∧ e.lookup k = some w ∧ same v w = false

section

variable {same : α → α → Bool} {p q : Patch κ α} {d e : List (κ × α)}

theorem lookup_apply (p : Patch κ α) (d : List (κ × α)) (k : κ) :
    (p.apply d).lookup k =
      (if k ∈ keys p.removed then none
        else (d.lookup k).map fun v => ((p.changed.lookup k).map Prod.snd).getD v).or
        (p.added.lookup k) := by
  rw [apply, List.lookup_append,
    lookup_map fun k v => ((p.changed.lookup k).map Prod.snd).getD v,
    lookup_filter fun k => decide (k ∉ keys p.removed)]
  by_cases h : k ∈ keys p.removed
  · simp [h]
  · simp [h]

theorem keys_apply (p : Patch κ α) (d : List (κ × α)) :
    keys (p.apply d) = ((keys d).filter fun k => k ∉ keys p.removed) ++ keys p.added := by
  simp [keys, apply, List.filter_map, Function.comp_def]

theorem Between.mem_addedKeys (h : p.Between same d e) {k : κ} :
    k ∈ keys p.added ↔ k ∉ keys d ∧ k ∈ keys e := by
  rw [mem_keys, ← lookup_eq_none, mem_keys, ← exists_and_left]
  exact exists_congr fun v => (lookup_eq_some h.addedKeys).trans (h.added k v)

theorem Between.mem_removedKeys (h : p.Between same d e) {k : κ} :
    k ∈ keys p.removed ↔ k ∈ keys d ∧ k ∉ keys e := by
  rw [mem_keys, ← lookup_eq_none, mem_keys, ← exists_and_right]
  exact exists_congr fun v => (lookup_eq_some h.removedKeys).trans (h.removed k v)

/-- A changed key is a key of both. -/
theorem Between.of_mem_changedKeys (h : p.Between same d e) {k : κ} (hk : k ∈ keys p.changed) :
    k ∈ keys d ∧ k ∈ keys e := by
  obtain ⟨⟨v, w⟩, hvw⟩ := mem_keys.mp hk
  obtain ⟨hv, hw, -⟩ := (h.changed k v w).mp (mem_of_lookup hvw)
  exact ⟨mem_keys.mpr ⟨v, hv⟩, mem_keys.mpr ⟨w, hw⟩⟩

theorem Between.nodup_apply (h : p.Between same d e) (hd : (keys d).Nodup) :
    (keys (p.apply d)).Nodup := by
  rw [keys_apply, List.nodup_append]
  refine ⟨hd.filter _, h.addedKeys, fun k hk k' hk' heq => ?_⟩
  subst heq
  exact (h.mem_addedKeys.mp hk').1 (List.mem_filter.mp hk).1

/-- The items of a patched dictionary come from one of the two. -/
theorem Between.mem_apply (h : p.Between same d e) {kv : κ × α} (hkv : kv ∈ p.apply d) :
    kv ∈ d ∨ kv ∈ e := by
  rcases List.mem_append.mp hkv with hkv | hkv
  · obtain ⟨⟨k, v⟩, hmem, rfl⟩ := List.mem_map.mp hkv
    cases hlookup : p.changed.lookup k with
    | none => exact .inl (by simpa [hlookup] using (List.mem_filter.mp hmem).1)
    | some vw =>
      obtain ⟨-, hw, -⟩ := (h.changed k vw.1 vw.2).mp (mem_of_lookup hlookup)
      exact .inr (by simpa [hlookup] using mem_of_lookup hw)
  · exact .inr (mem_of_lookup ((h.added kv.1 kv.2).mp hkv).2)

/-- A patch between two dictionaries takes the first to the second. -/
theorem Between.agree_apply (h : p.Between same d e) (refl : ∀ kv ∈ e, same kv.2 kv.2 = true) :
    Agree (fun v w => same v w = true) (p.apply d) e := by
  intro k
  rw [lookup_apply]
  cases hv : d.lookup k with
  | none =>
    have hadded : p.added.lookup k = e.lookup k := by
      ext w
      rw [lookup_eq_some h.addedKeys, h.added k w]
      simp [hv]
    have hchoice : (if k ∈ keys p.removed then (none : Option α) else none) = none := ite_self none
    rw [Option.map_none, hchoice, Option.none_or, hadded]
    cases hw : e.lookup k with
    | none => exact .none
    | some w => exact .some (refl (k, w) (mem_of_lookup hw))
  | some v =>
    have hadded : p.added.lookup k = none := by
      rw [lookup_eq_none, h.mem_addedKeys]
      exact fun hk => hk.1 (mem_keys.mpr ⟨v, hv⟩)
    rw [hadded, Option.or_none]
    cases hw : e.lookup k with
    | none =>
      have hremoved : k ∈ keys p.removed :=
        h.mem_removedKeys.mpr ⟨mem_keys.mpr ⟨v, hv⟩, lookup_eq_none.mp hw⟩
      rw [if_pos hremoved]
      exact .none
    | some w =>
      have hkept : k ∉ keys p.removed := fun hk =>
        (h.mem_removedKeys.mp hk).2 (mem_keys.mpr ⟨w, hw⟩)
      rw [if_neg hkept, Option.map_some]
      refine .some ?_
      cases hsame : same v w with
      | false =>
        have hchanged : p.changed.lookup k = some (v, w) :=
          (lookup_eq_some h.changedKeys).mpr ((h.changed k v w).mpr ⟨hv, hw, hsame⟩)
        rw [hchanged]
        exact refl (k, w) (mem_of_lookup hw)
      | true =>
        have hunchanged : p.changed.lookup k = none := by
          rw [Option.eq_none_iff_forall_ne_some]
          rintro ⟨v', w'⟩ hlookup
          obtain ⟨hv', hw', hdiffer⟩ := (h.changed k v' w').mp (mem_of_lookup hlookup)
          obtain rfl := Option.some.inj (hv.symm.trans hv')
          obtain rfl := Option.some.inj (hw.symm.trans hw')
          rw [hsame] at hdiffer
          nomatch hdiffer
        rw [hunchanged]
        exact hsame

/-- The patch in the other direction. -/
theorem Between.swap (h : p.Between same d e)
    (symm : ∀ kv ∈ d, ∀ kw ∈ e, same kw.2 kv.2 = same kv.2 kw.2) : p.swap.Between same e d where
  addedKeys := h.removedKeys
  removedKeys := h.addedKeys
  changedKeys := by
    have hkeys : keys p.swap.changed = keys p.changed := by simp [keys, Patch.swap]
    rw [hkeys]
    exact h.changedKeys
  added k v := (h.removed k v).trans and_comm
  removed k v := (h.added k v).trans and_comm
  changed k v w := by
    have hmem : (k, v, w) ∈ p.swap.changed ↔ (k, w, v) ∈ p.changed := by
      simp [Patch.swap]
    rw [hmem, h.changed k w v]
    constructor
    · rintro ⟨hw, hv, hsame⟩
      exact ⟨hv, hw, symm _ (mem_of_lookup hw) _ (mem_of_lookup hv) ▸ hsame⟩
    · rintro ⟨hv, hw, hsame⟩
      exact ⟨hw, hv, symm _ (mem_of_lookup hw) _ (mem_of_lookup hv) ▸ hsame⟩

/-- Two patches between the same dictionaries differ in order only. -/
theorem Between.perm (h : p.Between same d e) (h' : q.Between same d e) :
    p.added.Perm q.added ∧ p.removed.Perm q.removed ∧ p.changed.Perm q.changed := by
  refine ⟨(List.perm_ext_iff_of_nodup h.addedKeys.of_map h'.addedKeys.of_map).mpr fun kv => ?_,
    (List.perm_ext_iff_of_nodup h.removedKeys.of_map h'.removedKeys.of_map).mpr fun kv => ?_,
    (List.perm_ext_iff_of_nodup h.changedKeys.of_map h'.changedKeys.of_map).mpr fun kvw => ?_⟩
  · exact (h.added kv.1 kv.2).trans (h'.added kv.1 kv.2).symm
  · exact (h.removed kv.1 kv.2).trans (h'.removed kv.1 kv.2).symm
  · exact (h.changed kvw.1 kvw.2.1 kvw.2.2).trans (h'.changed kvw.1 kvw.2.1 kvw.2.2).symm

end

end Patch

end NexusEngine.Dictionaries
