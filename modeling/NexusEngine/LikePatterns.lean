import Mathlib.Data.List.Infix
import Mathlib.Tactic.Common

/-!
# Patterns with wildcards

A pattern has a wildcard for any text, one for a single symbol, and an escape that makes the next
symbol a literal. A text put between two wildcards for any text matches what contains it exactly
where it has none of the three: otherwise the shortest match does not contain it.
-/

namespace NexusEngine.LikePatterns

variable {α : Type}

structure Wildcards (α : Type) where
  any : α
  one : α
  escape : α
  anyNeEscape : any ≠ escape

inductive Token (α : Type) where
  | any
  | one
  | literal (a : α)
  deriving DecidableEq, Repr

def Token.map {β : Type} (f : α → β) : Token α → Token β
  | .any => .any
  | .one => .one
  | .literal a => .literal (f a)

section

variable [DecidableEq α] (w : Wildcards α)

/-- A symbol that is not escaped. -/
def Wildcards.token (a : α) : Token α :=
  if a = w.any then .any else if a = w.one then .one else .literal a

/-- An escape at the end of a pattern stands for itself. -/
def tokens : List α → List (Token α)
  | [] => []
  | [a] => [w.token a]
  | a :: b :: p => if a = w.escape then .literal b :: tokens p else w.token a :: tokens (b :: p)

example (a : α) : tokens w [w.escape, a, w.escape] = [.literal a, w.token w.escape] := by
  simp [tokens]

/-- Does the text match? -/
def accepts : List (Token α) → List α → Bool
  | [], s => s.isEmpty
  | .any :: t, s => s.tails.any fun rest => accepts t rest
  | .one :: t, s =>
    match s with
    | [] => false
    | _ :: s => accepts t s
  | .literal a :: t, s =>
    match s with
    | [] => false
    | b :: s => decide (b = a) && accepts t s

example : accepts [.any, .literal 'b', .one] ['a', 'b', 'c'] = true := by simp [accepts]

variable {w}

/-! ## Matching -/

@[simp] theorem accepts_nil {s : List α} : accepts [] s = true ↔ s = [] := by
  simp [accepts]

theorem accepts_any {t : List (Token α)} {s : List α} :
    accepts (.any :: t) s = true ↔ ∃ u v, s = u ++ v ∧ accepts t v = true := by
  simp only [accepts, List.any_eq_true, List.mem_tails]
  constructor
  · rintro ⟨v, ⟨u, rfl⟩, hv⟩
    exact ⟨u, v, rfl, hv⟩
  · rintro ⟨u, v, rfl, hv⟩
    exact ⟨v, ⟨u, rfl⟩, hv⟩

theorem accepts_one {t : List (Token α)} {s : List α} :
    accepts (.one :: t) s = true ↔ ∃ a v, s = a :: v ∧ accepts t v = true := by
  cases s <;> simp [accepts]

theorem accepts_literal {a : α} {t : List (Token α)} {s : List α} :
    accepts (.literal a :: t) s = true ↔ ∃ v, s = a :: v ∧ accepts t v = true := by
  cases s with
  | nil => simp [accepts]
  | cons b s =>
    simp only [accepts, Bool.and_eq_true, decide_eq_true_eq, List.cons.injEq]
    constructor
    · rintro ⟨rfl, hs⟩
      exact ⟨s, ⟨rfl, rfl⟩, hs⟩
    · rintro ⟨v, ⟨rfl, rfl⟩, hv⟩
      exact ⟨rfl, hv⟩

theorem accepts_literals {q s : List α} {t : List (Token α)} :
    accepts (q.map .literal ++ t) s = true ↔ ∃ v, s = q ++ v ∧ accepts t v = true := by
  induction q generalizing s with
  | nil => simp
  | cons a q ih =>
    simp only [List.map_cons, List.cons_append, accepts_literal, ih]
    constructor
    · rintro ⟨v, rfl, u, rfl, hu⟩
      exact ⟨u, rfl, hu⟩
    · rintro ⟨u, rfl, hu⟩
      exact ⟨q ++ u, rfl, u, rfl, hu⟩

/-- Literals between two wildcards are what a text contains. -/
theorem accepts_infix {q s : List α} :
    accepts (.any :: (q.map .literal ++ [.any])) s = true ↔ q <:+: s := by
  simp only [accepts_any, accepts_literals, accepts_nil]
  constructor
  · rintro ⟨u, _, rfl, v, rfl, _, _, _, _⟩
    exact ⟨u, v, by rw [List.append_assoc]⟩
  · rintro ⟨u, v, rfl⟩
    exact ⟨u, q ++ v, List.append_assoc .., v, rfl, v, [], (List.append_nil v).symm, rfl⟩

/-! ## Patterns without wildcards -/

/-- None of the symbols has a meaning of its own. -/
def Plain (w : Wildcards α) (q : List α) : Prop :=
  ∀ a ∈ q, a ≠ w.any ∧ a ≠ w.one ∧ a ≠ w.escape

instance (q : List α) : Decidable (Plain w q) :=
  inferInstanceAs (Decidable (∀ a ∈ q, a ≠ w.any ∧ a ≠ w.one ∧ a ≠ w.escape))

theorem tokens_cons {a : α} (h : a ≠ w.escape) (p : List α) :
    tokens w (a :: p) = w.token a :: tokens w p := by
  cases p with
  | nil => rfl
  | cons b p => rw [tokens, if_neg h]

theorem token_any : w.token w.any = .any := if_pos rfl

theorem tokens_any (p : List α) : tokens w (w.any :: p) = .any :: tokens w p := by
  rw [tokens_cons w.anyNeEscape, token_any]

theorem tokens_plain {q : List α} (h : Plain w q) (p : List α) :
    tokens w (q ++ p) = q.map .literal ++ tokens w p := by
  induction q with
  | nil => rfl
  | cons a q ih =>
    obtain ⟨hany, hone, hescape⟩ := h a List.mem_cons_self
    have hq := ih fun b hb => h b (List.mem_cons_of_mem a hb)
    rw [List.cons_append, tokens_cons hescape, hq, Wildcards.token, if_neg hany, if_neg hone]
    rfl

/-- A text between two wildcards. -/
def containing (w : Wildcards α) (q : List α) : List α := w.any :: (q ++ [w.any])

theorem accepts_containing {q s : List α} (h : Plain w q) :
    accepts (tokens w (containing w q)) s = true ↔ q <:+: s := by
  have hlast : tokens w [w.any] = [.any] := tokens_any []
  rw [containing, tokens_any, tokens_plain h, hlast, accepts_infix]

/-! ## The shortest match -/

/-- Every single symbol is `x`, and every other wildcard matches nothing. -/
def shortest (x : α) : List (Token α) → List α
  | [] => []
  | .any :: t => shortest x t
  | .one :: t => x :: shortest x t
  | .literal a :: t => a :: shortest x t

example (x a : α) : shortest x [.any, .one, .literal a] = [x, a] := by simp [shortest]

theorem accepts_shortest (x : α) (t : List (Token α)) : accepts t (shortest x t) = true := by
  induction t with
  | nil => rfl
  | cons token t ih =>
    cases token with
    | any => exact accepts_any.mpr ⟨[], _, rfl, ih⟩
    | one => exact accepts_one.mpr ⟨x, _, rfl, ih⟩
    | literal a => exact accepts_literal.mpr ⟨_, rfl, ih⟩

theorem length_shortest_le (x : α) {t : List (Token α)} {s : List α} (h : accepts t s = true) :
    (shortest x t).length ≤ s.length := by
  induction t generalizing s with
  | nil => exact Nat.zero_le _
  | cons token t ih =>
    cases token with
    | any =>
      obtain ⟨u, v, rfl, hv⟩ := accepts_any.mp h
      have := ih hv
      simp only [shortest, List.length_append]
      omega
    | one =>
      obtain ⟨a, v, rfl, hv⟩ := accepts_one.mp h
      simpa [shortest] using ih hv
    | literal a =>
      obtain ⟨v, rfl, hv⟩ := accepts_literal.mp h
      simpa [shortest] using ih hv

theorem mem_shortest {x a : α} {p : List α} (h : a ∈ shortest x (tokens w p)) : a = x ∨ a ∈ p := by
  induction p using tokens.induct w with
  | case1 => simp [tokens, shortest] at h
  | case2 b =>
    simp only [tokens, Wildcards.token] at h
    split at h
    · simp [shortest] at h
    · split at h <;> simp_all [shortest]
  | case3 b p ih =>
    rw [tokens, if_pos rfl] at h
    rcases List.mem_cons.mp h with rfl | h
    · simp
    · rcases ih h with h | h <;> simp [h]
  | case4 b c p hb ih =>
    rw [tokens, if_neg hb] at h
    have hrest : a ∈ b :: shortest x (tokens w (c :: p)) ∨ a = x := by
      simp only [Wildcards.token] at h
      split at h
      · exact .inl (List.mem_cons_of_mem b h)
      · split at h
        · rcases List.mem_cons.mp h with h | h
          · exact .inr h
          · exact .inl (List.mem_cons_of_mem b h)
        · exact .inl h
    rcases hrest with hrest | hrest
    · rcases List.mem_cons.mp hrest with h | h
      · simp [h]
      · rcases ih h with h | h
        · exact .inl h
        · exact .inr (List.mem_cons_of_mem b h)
    · exact .inl hrest

/-- A single symbol adds at most itself. -/
theorem shortest_token (x a : α) (t : List (Token α)) :
    shortest x (w.token a :: t) = shortest x t ∨ shortest x (w.token a :: t) = x :: shortest x t ∧
      a = w.one ∨ shortest x (w.token a :: t) = a :: shortest x t ∧ a ≠ w.any ∧ a ≠ w.one := by
  unfold Wildcards.token
  split
  · exact .inl rfl
  · next hany =>
    split
    · next hone => exact .inr (.inl ⟨rfl, hone⟩)
    · next hone => exact .inr (.inr ⟨rfl, hany, hone⟩)

theorem length_shortest_token (x a : α) (t : List (Token α)) :
    (shortest x (w.token a :: t)).length ≤ (shortest x t).length + 1 := by
  rcases shortest_token (w := w) x a t with h | ⟨h, -⟩ | ⟨h, -⟩ <;> rw [h] <;> simp

/-- The escape and the symbol after it make one symbol, also where that is the last wildcard. -/
theorem length_shortest (x : α) (q : List α) :
    (shortest x (tokens w (q ++ [w.any]))).length ≤ q.length := by
  have hlast : tokens w [w.any] = [.any] := tokens_any []
  induction q using tokens.induct w with
  | case1 => simp [hlast, shortest]
  | case2 a =>
    by_cases h : a = w.escape
    · simp [tokens, h, shortest]
    · have hle := length_shortest_token (w := w) x a (tokens w [w.any])
      simp only [List.cons_append, List.nil_append, tokens_cons h]
      simpa [hlast, shortest] using hle
  | case3 b q ih =>
    simp only [List.cons_append, tokens, if_true, shortest, List.length_cons]
    omega
  | case4 a b q h ih =>
    have hle := length_shortest_token (w := w) x a (tokens w (b :: (q ++ [w.any])))
    simp only [List.cons_append, List.length_cons] at ih ⊢
    rw [tokens, if_neg h]
    omega

theorem plain_of_shortest {x : α} (hx : x ≠ w.one) {q : List α}
    (h : shortest x (tokens w (q ++ [w.any])) = q) : Plain w q := by
  have hlast : tokens w [w.any] = [.any] := tokens_any []
  induction q using tokens.induct w with
  | case1 =>
    intro a ha
    cases ha
  | case2 a =>
    by_cases hescape : a = w.escape
    · simp only [List.cons_append, List.nil_append, tokens, hescape, if_true, shortest,
        List.cons.injEq, and_true] at h
      exact absurd h w.anyNeEscape
    · rw [List.cons_append, List.nil_append, tokens_cons hescape, hlast] at h
      rcases shortest_token (w := w) x a [.any] with hs | ⟨hs, hone⟩ | ⟨hs, hany, hone⟩
      · rw [hs] at h
        cases h
      · rw [hs] at h
        exact absurd ((List.cons.inj h).1.trans hone) hx
      · intro b hb
        rw [List.mem_singleton.mp hb]
        exact ⟨hany, hone, hescape⟩
  | case3 b q ih =>
    have hlength := congrArg List.length h
    have hle := length_shortest (w := w) x q
    simp only [List.cons_append, tokens, if_true, shortest, List.length_cons] at hlength
    omega
  | case4 a b q hescape ih =>
    have hle := length_shortest (w := w) x (b :: q)
    simp only [List.cons_append] at h hle ih
    rw [tokens, if_neg hescape] at h
    rcases shortest_token (w := w) x a (tokens w (b :: (q ++ [w.any]))) with
      hs | ⟨hs, hone⟩ | ⟨hs, hany, hone⟩
    · have hlength := congrArg List.length h
      rw [hs] at hlength
      simp only [List.length_cons] at hlength hle
      omega
    · rw [hs] at h
      exact absurd ((List.cons.inj h).1.trans hone) hx
    · rw [hs] at h
      intro c hc
      rcases List.mem_cons.mp hc with rfl | hc
      · exact ⟨hany, hone, hescape⟩
      · exact ih (List.cons.inj h).2 c hc

theorem tokens_containing (q : List α) :
    tokens w (containing w q) = .any :: tokens w (q ++ [w.any]) := tokens_any _

/-- The shortest match contains the text only where this is plain. -/
theorem infix_shortest_iff {x : α} (hx : x ≠ w.one) {q : List α} :
    q <:+: shortest x (tokens w (containing w q)) ↔ Plain w q := by
  constructor
  · intro h
    rw [tokens_containing, shortest] at h
    exact plain_of_shortest hx (h.eq_of_length_le (length_shortest x q)).symm
  · intro h
    exact (accepts_containing h).mp (accepts_shortest x _)

theorem length_shortest_containing (x : α) (q : List α) :
    (shortest x (tokens w (containing w q))).length ≤ q.length := by
  rw [tokens_containing, shortest]
  exact length_shortest x q

end

/-! ## Symbols that count as one -/

section

variable {w : Wildcards α}

/-- A map that keeps the meaning of every symbol. -/
structure Keeps (w : Wildcards α) (f : α → α) : Prop where
  any : ∀ a, f a = w.any ↔ a = w.any
  one : ∀ a, f a = w.one ↔ a = w.one
  escape : ∀ a, f a = w.escape ↔ a = w.escape

variable {f : α → α}

theorem Keeps.containing (hf : Keeps w f) (q : List α) :
    (LikePatterns.containing w q).map f = LikePatterns.containing w (q.map f) := by
  have hany : f w.any = w.any := (hf.any _).mpr rfl
  simp [LikePatterns.containing, hany]

theorem Keeps.plain (hf : Keeps w f) {q : List α} : Plain w (q.map f) ↔ Plain w q := by
  simp [Plain, hf.any, hf.one, hf.escape]

theorem shortest_map (x : α) (t : List (Token α)) :
    (shortest x t).map f = shortest (f x) (t.map (Token.map f)) := by
  induction t with
  | nil => rfl
  | cons token t ih => cases token <;> simp [shortest, Token.map, ih]

variable [DecidableEq α]

theorem Keeps.token (hf : Keeps w f) (a : α) : w.token (f a) = (w.token a).map f := by
  unfold Wildcards.token
  simp only [hf.any, hf.one]
  split
  · rfl
  · split <;> rfl

theorem Keeps.tokens (hf : Keeps w f) (p : List α) :
    LikePatterns.tokens w (p.map f) = (LikePatterns.tokens w p).map (Token.map f) := by
  induction p using tokens.induct w with
  | case1 => rfl
  | case2 a => simp [LikePatterns.tokens, hf.token]
  | case3 b p ih =>
    have hescape : f w.escape = w.escape := (hf.escape _).mpr rfl
    simp [LikePatterns.tokens, hescape, ih, Token.map]
  | case4 a b p h ih =>
    have hne : f a ≠ w.escape := fun heq => h ((hf.escape a).mp heq)
    simp only [List.map_cons] at ih ⊢
    rw [LikePatterns.tokens, if_neg hne, LikePatterns.tokens, if_neg h, hf.token, ih,
      List.map_cons]

end

end NexusEngine.LikePatterns
