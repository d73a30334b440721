import Mathlib.Data.List.Forall2
import Mathlib.Data.List.MinMax
import Mathlib.Data.List.Sort

/-!
# Lists that are related entry by entry

Sorting, searching and choosing the largest treat two lists alike whose entries are related, as
long as related entries look the same to the order or the test. Optional values are related when
both are there and related, or neither is there.
-/

namespace NexusEngine.RelatedLists

variable {α β : Type} {R : α → α → Prop}

theorem forall₂_and_mem {l l' : List α} (h : List.Forall₂ R l l') :
    List.Forall₂ (fun a a' => R a a' ∧ a ∈ l ∧ a' ∈ l') l l' := by
  induction h with
  | nil => exact .nil
  | cons ha _ ih =>
    refine .cons ⟨ha, List.mem_cons_self, List.mem_cons_self⟩ (ih.imp fun b b' hb => ?_)
    exact ⟨hb.1, List.mem_cons_of_mem _ hb.2.1, List.mem_cons_of_mem _ hb.2.2⟩

/-- What is on the right is related to something on the left. -/
theorem forall₂_mem_right {Q : α → β → Prop} {l : List α} {l' : List β}
    (h : List.Forall₂ Q l l') {b : β} (hb : b ∈ l') : ∃ a ∈ l, Q a b := by
  induction h with
  | nil => cases hb
  | cons hq _ ih =>
    rcases List.mem_cons.mp hb with rfl | hb
    · exact ⟨_, List.mem_cons_self, hq⟩
    · obtain ⟨a, ha, hq⟩ := ih hb
      exact ⟨a, List.mem_cons_of_mem _ ha, hq⟩

theorem forall₂_iff_getElem? {Q : α → β → Prop} {l : List α} {l' : List β} :
    List.Forall₂ Q l l' ↔ l.length = l'.length ∧
      ∀ (i : ℕ) (a : α) (b : β), l[i]? = some a → l'[i]? = some b → Q a b := by
  rw [List.forall₂_iff_get]
  refine and_congr_right fun hlength => forall_congr' fun i => ?_
  constructor
  · intro h a b ha hb
    obtain ⟨hi, rfl⟩ := List.getElem?_eq_some_iff.mp ha
    obtain ⟨hi', rfl⟩ := List.getElem?_eq_some_iff.mp hb
    exact h hi hi'
  · exact fun h hi hi' => h _ _ (List.getElem?_eq_getElem hi) (List.getElem?_eq_getElem hi')

theorem map_eq_of_forall₂ {f : α → β} (hf : ∀ a a', R a a' → f a' = f a) {l l' : List α}
    (h : List.Forall₂ R l l') : l'.map f = l.map f := by
  induction h with
  | nil => rfl
  | cons ha _ ih => rw [List.map_cons, List.map_cons, hf _ _ ha, ih]

theorem forall₂_filter {p : α → Bool} (hp : ∀ a a', R a a' → p a' = p a) {l l' : List α}
    (h : List.Forall₂ R l l') : List.Forall₂ R (l.filter p) (l'.filter p) := by
  induction h with
  | nil => exact .nil
  | @cons a a' l l' ha _ ih =>
    rw [List.filter_cons, List.filter_cons, hp a a' ha]
    split
    · exact .cons ha ih
    · exact ih

theorem rel_find? {p : α → Bool} (hp : ∀ a a', R a a' → p a' = p a) {l l' : List α}
    (h : List.Forall₂ R l l') : Option.Rel R (l.find? p) (l'.find? p) := by
  induction h with
  | nil => exact .none
  | @cons a a' l l' ha _ ih =>
    rw [List.find?_cons, List.find?_cons, hp a a' ha]
    split
    · exact .some ha
    · exact ih

theorem rel_argmax [LinearOrder β] {f : α → β} (hf : ∀ a a', R a a' → f a' = f a) {l l' : List α}
    (h : List.Forall₂ R l l') : Option.Rel R (l.argmax f) (l'.argmax f) := by
  induction h with
  | nil => exact .none
  | @cons a a' l l' ha _ ih =>
    rw [List.argmax_cons, List.argmax_cons]
    generalize l.argmax f = m, l'.argmax f = m' at ih
    cases ih with
    | none => exact .some ha
    | @some c c' hc =>
      dsimp only
      rw [hf a a' ha, hf c c' hc]
      split
      · exact .some hc
      · exact .some ha

section

variable {r : α → α → Prop} [DecidableRel r]

theorem forall₂_orderedInsert (hr : ∀ a a' b b', R a a' → R b b' → (r a b ↔ r a' b')) {a a' : α}
    (ha : R a a') {l l' : List α} (h : List.Forall₂ R l l') :
    List.Forall₂ R (l.orderedInsert r a) (l'.orderedInsert r a') := by
  induction h with
  | nil => exact .cons ha .nil
  | @cons b b' l l' hb hl ih =>
    rw [List.orderedInsert_cons, List.orderedInsert_cons]
    by_cases hab : r a b
    · rw [if_pos hab, if_pos ((hr a a' b b' ha hb).mp hab)]
      exact .cons ha (.cons hb hl)
    · rw [if_neg hab, if_neg fun h => hab ((hr a a' b b' ha hb).mpr h)]
      exact .cons hb ih

/-- Lists that agree in what an order looks at are sorted alike. -/
theorem forall₂_insertionSort (hr : ∀ a a' b b', R a a' → R b b' → (r a b ↔ r a' b'))
    {l l' : List α} (h : List.Forall₂ R l l') :
    List.Forall₂ R (l.insertionSort r) (l'.insertionSort r) := by
  induction h with
  | nil => exact .nil
  | cons ha _ ih => exact forall₂_orderedInsert hr ha ih

end

/-! ## Optional values -/

theorem rel_bind_same {α β γ : Type} {R : β → γ → Prop} {o : Option α} {f : α → Option β}
    {g : α → Option γ} (h : ∀ a, o = some a → Option.Rel R (f a) (g a)) :
    Option.Rel R (o.bind f) (o.bind g) := by
  cases ho : o with
  | none => exact .none
  | some a => exact h a ho

theorem rel_bind {α α' β γ : Type} {Q : α → α' → Prop} {R : β → γ → Prop} {o : Option α}
    {o' : Option α'} {f : α → Option β} {g : α' → Option γ} (ho : Option.Rel Q o o')
    (h : ∀ a a', o = some a → o' = some a' → Q a a' → Option.Rel R (f a) (g a')) :
    Option.Rel R (o.bind f) (o'.bind g) := by
  cases ho with
  | none => exact .none
  | some hq => exact h _ _ rfl rfl hq

theorem rel_map {α α' β γ : Type} {Q : α → α' → Prop} {R : β → γ → Prop} {o : Option α}
    {o' : Option α'} {f : α → β} {g : α' → γ} (ho : Option.Rel Q o o')
    (h : ∀ a a', Q a a' → R (f a) (g a')) : Option.Rel R (o.map f) (o'.map g) := by
  cases ho with
  | none => exact .none
  | some hq => exact .some (h _ _ hq)

end NexusEngine.RelatedLists
