import Mathlib.Data.List.Basic
import Mathlib.Data.List.Infix
import Mathlib.Data.List.Sublists

/-!
# Hash chains

A chain of rows in which every row names the digest of the row before it and stores a digest
of that name and its own content. The hash is any function that separates different names
and different contents. An intact chain is determined by its last digest, and the only rows
that can be removed without a trace are a block at its end.
-/

namespace NexusEngine.HashChains

variable {Row Content Digest : Type*}

/-- What the chain reads off a row, the content that is to be protected, and the hash of a
row after a given digest. -/
structure ChainFormat (Row Content Digest : Type*) where
  prev : Row → Option Digest
  digest : Row → Digest
  content : Row → Content
  hash : Option Digest → Row → Digest

/-- The hash commits to the digest before a row and to the row's content. -/
def ChainFormat.Binding (F : ChainFormat Row Content Digest) : Prop :=
  ∀ p r p' r', F.hash p r = F.hash p' r' → p = p' ∧ F.content r = F.content r'

namespace ChainFormat

variable (F : ChainFormat Row Content Digest)

/-- The row fits after a row with digest `before`. -/
def Fits (before : Option Digest) (r : Row) : Prop :=
  F.hash before r = F.digest r ∧ F.prev r = before

/-- Every row fits after the one before it. -/
def Intact : Option Digest → List Row → Prop
  | _, [] => True
  | before, r :: rs => F.Fits before r ∧ Intact (some (F.digest r)) rs

/-- The digest a further row has to name. -/
def endDigest (before : Option Digest) (rs : List Row) : Option Digest :=
  rs.foldl (fun _ r => some (F.digest r)) before

@[simp] theorem endDigest_nil (before : Option Digest) : F.endDigest before [] = before := rfl

@[simp] theorem endDigest_cons (before : Option Digest) (r : Row) (rs : List Row) :
    F.endDigest before (r :: rs) = F.endDigest (some (F.digest r)) rs := rfl

@[simp] theorem endDigest_concat (before : Option Digest) (rs : List Row) (r : Row) :
    F.endDigest before (rs ++ [r]) = some (F.digest r) := by simp [endDigest]

theorem endDigest_eq_getLast? (rs : List Row) :
    F.endDigest none rs = rs.getLast?.map F.digest := by
  rcases List.eq_nil_or_concat' rs with rfl | ⟨front, last, rfl⟩ <;> simp

@[simp] theorem intact_nil (before : Option Digest) : F.Intact before [] := trivial

theorem intact_append (before : Option Digest) (rs rs' : List Row) :
    F.Intact before (rs ++ rs') ↔
      F.Intact before rs ∧ F.Intact (F.endDigest before rs) rs' := by
  induction rs generalizing before with
  | nil => simp
  | cons r rs ih => simp [Intact, ih, and_assoc]

theorem intact_concat (before : Option Digest) (rs : List Row) (r : Row) :
    F.Intact before (rs ++ [r]) ↔
      F.Intact before rs ∧ F.Fits (F.endDigest before rs) r := by
  simp [intact_append, Intact]

variable {F}

theorem Intact.of_prefix {before : Option Digest} {rs rs' : List Row} (h : F.Intact before rs')
    (hp : rs <+: rs') : F.Intact before rs := by
  obtain ⟨tail, rfl⟩ := hp
  exact ((F.intact_append before rs tail).mp h).1

/-- What an intact chain says about one row: the name of its predecessor, its digest, and
its content. -/
def view (F : ChainFormat Row Content Digest) (r : Row) : Option Digest × Digest × Content :=
  (F.prev r, F.digest r, F.content r)

/-- The last digest determines the chain, and with it the number of rows. -/
theorem Binding.chain_eq (hb : F.Binding) {rs rs' : List Row} (h : F.Intact none rs)
    (h' : F.Intact none rs') (hd : F.endDigest none rs = F.endDigest none rs') :
    rs.map F.view = rs'.map F.view := by
  induction rs using List.reverseRecOn generalizing rs' with
  | nil =>
    rcases List.eq_nil_or_concat' rs' with rfl | ⟨front, last, rfl⟩
    · rfl
    · simp at hd
  | append_singleton rs r ih =>
    rcases List.eq_nil_or_concat' rs' with rfl | ⟨rs', r', rfl⟩
    · simp at hd
    · obtain ⟨hi, hf⟩ := (F.intact_concat none rs r).mp h
      obtain ⟨hi', hf'⟩ := (F.intact_concat none rs' r').mp h'
      have hdigest : F.digest r = F.digest r' := by simpa using hd
      have hhash : F.hash (F.endDigest none rs) r = F.hash (F.endDigest none rs') r' := by
        rw [hf.1, hf'.1, hdigest]
      obtain ⟨hprev, hcontent⟩ := hb _ _ _ _ hhash
      have hview : F.view r = F.view r' := by simp [view, hf.2, hf'.2, hdigest, hcontent, hprev]
      simp [ih hi hi' hprev, hview]

/-- Rows of an intact chain that form an intact chain of their own are its first rows. -/
theorem Binding.prefix_of_sublist (hb : F.Binding) {rs rs' : List Row}
    (h : F.Intact none rs') (hs : F.Intact none rs) (hsub : rs.Sublist rs') :
    rs <+: rs' := by
  rcases List.eq_nil_or_concat' rs with rfl | ⟨front, last, rfl⟩
  · exact List.nil_prefix
  · obtain ⟨head, tail, rfl, hfront, hlast⟩ := List.append_sublist_iff.mp hsub
    obtain ⟨gap, rest, rfl⟩ := List.append_of_mem (List.singleton_sublist.mp hlast)
    have hsplit : head ++ (gap ++ last :: rest) = (head ++ gap ++ [last]) ++ rest := by simp
    rw [hsplit] at h ⊢
    have hhead := ((F.intact_append none _ rest).mp h).1
    have hend : F.endDigest none (front ++ [last]) =
        F.endDigest none (head ++ gap ++ [last]) := by
      rw [F.endDigest_concat, F.endDigest_concat]
    have hlen : (front ++ [last]).length = (head ++ gap ++ [last]).length := by
      simpa using congrArg List.length (hb.chain_eq hs hhead hend)
    have hsub' : (front ++ [last]).Sublist (head ++ gap ++ [last]) :=
      (hfront.trans (List.sublist_append_left head gap)).append_right [last]
    rw [hsub'.eq_of_length hlen]
    exact List.prefix_append _ _

end ChainFormat

end NexusEngine.HashChains
