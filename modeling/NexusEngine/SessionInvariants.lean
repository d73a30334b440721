import NexusEngine.ReadCommittedSessions
import NexusEngine.RequestStatements

/-!
# Invariants of interleaved requests

What a session has read can be out of date when its statements are committed. In a store that only
grows, what was read is still there. A request is verified against what its session knows: facts
that stay true while the store grows. Interleavings of verified requests keep the invariant.
-/

namespace NexusEngine.ReadCommittedSessions

open TransactionalRequests

variable {Db W E α β : Type} {S : StatementSemantics Db W E} {R : Db → Db → Prop} {P : Db → Prop}

/-- Every statement takes a state to a later one, and keeps the order of two states. -/
structure Growth (S : StatementSemantics Db W E) (R : Db → Db → Prop) : Prop where
  refl : ∀ db, R db db
  trans : ∀ a b c, R a b → R b c → R a c
  grows : ∀ w db db', S.apply w db = some db' → R db db'
  mono : ∀ w a b a' b', R a b → S.apply w a = some a' → S.apply w b = some b' → R a' b'

namespace Growth

theorem applyAll (growth : Growth S R) {ws : List W} {db db' : Db}
    (h : S.applyAll ws db = some db') : R db db' :=
  S.applyAll_preserves (P := fun later => R db later)
    (fun w _ mid later hw hmid => growth.trans _ _ _ hmid (growth.grows w mid later hw)) h
    (growth.refl db)

/-- Statements keep the order of two states. -/
theorem applyAll_mono (growth : Growth S R) {ws : List W} {a b a' b' : Db} (h : R a b)
    (ha : S.applyAll ws a = some a') (hb : S.applyAll ws b = some b') : R a' b' := by
  induction ws generalizing a b with
  | nil =>
    cases ha
    cases hb
    exact h
  | cons w ws ih =>
    obtain ⟨a₁, hwa, ha⟩ := Option.bind_eq_some_iff.mp ha
    obtain ⟨b₁, hwb, hb⟩ := Option.bind_eq_some_iff.mp hb
    exact ih (growth.mono w a b a₁ b₁ h hwa hwb) ha hb

/-- The committed state only grows. -/
theorem step (growth : Growth S R) {σ σ' : Server Db W E α} {a : Action}
    (h : σ.step S a = some σ') : R σ.committed σ'.committed := by
  obtain ⟨i, s, -, effect⟩ := Server.step_effect h
  cases effect with
  | moved => exact growth.refl _
  | dropped => exact growth.refl _
  | flushed => exact growth.refl _
  | committed next view _ _ accepted => exact growth.applyAll accepted

theorem reaches (growth : Growth S R) {cond : Db → List W → Prop} {σ σ' : Server Db W E α}
    (h : Server.Reaches S cond σ σ') : R σ.committed σ'.committed := by
  induction h with
  | refl => exact growth.refl _
  | step _ move _ ih => exact growth.trans _ _ _ ih (growth.step move)

end Growth

/-- Where nothing that was read is relied upon, any store grows. -/
theorem growth_true : Growth S fun _ _ => True where
  refl _ := trivial
  trans _ _ _ _ _ := trivial
  grows _ _ _ _ := trivial
  mono _ _ _ _ _ _ _ _ := trivial

/-! ## What a session knows -/

/-- The fact stays true while the store grows. -/
def Stable (R : Db → Db → Prop) (K : Db → Prop) : Prop := ∀ a b, R a b → K a → K b

/-- The fact holds of every state that the pending statements of the session can find. -/
def Knows (S : StatementSemantics Db W E) (R : Db → Db → Prop) (K : Db → Prop) (pending : List W)
    (db : Db) : Prop :=
  ∀ later mid, R db later → S.applyAll pending later = some mid → K mid

section

variable {K : Db → Prop} {pending ws : List W} {db db' : Db}

theorem stable_true : Stable R fun _ => True := fun _ _ _ _ => trivial

theorem Stable.and {K' : Db → Prop} (h : Stable R K) (h' : Stable R K') :
    Stable R fun db => K db ∧ K' db := fun a b hab hk => ⟨h a b hab hk.1, h' a b hab hk.2⟩

/-- What was seen in one state is a fact about every later one. -/
theorem Growth.stable (growth : Growth S R) (view : Db) : Stable R (R view) :=
  fun a b hab hview => growth.trans view a b hview hab

theorem Knows.later (growth : Growth S R) (h : Knows S R K pending db) (hr : R db db') :
    Knows S R K pending db' :=
  fun later mid hlater => h later mid (growth.trans _ _ _ hr hlater)

theorem Knows.flush (growth : Growth S R) (hstable : Stable R K) (h : Knows S R K pending db) :
    Knows S R K (pending ++ ws) db := by
  intro later after hlater happly
  rw [StatementSemantics.applyAll_append] at happly
  obtain ⟨mid, hmid, hafter⟩ := Option.bind_eq_some_iff.mp happly
  exact hstable mid after (growth.applyAll hafter) (h later mid hlater hmid)

theorem Knows.commit (growth : Growth S R) (hstable : Stable R K) (h : Knows S R K pending db)
    {view : Db} (happly : S.applyAll pending db = some view) : Knows S R K [] view := by
  intro later mid hlater hmid
  cases hmid
  exact hstable view _ hlater (h db view (growth.refl db) happly)

end

/-! ## Safe flushes -/

/-- The statements keep the invariant of every state that they can find. -/
def SendsSafely (S : StatementSemantics Db W E) (R : Db → Db → Prop) (P : Db → Prop) (db : Db)
    (pending : List W) (_ : ℕ) (ws : List W) : Prop :=
  Knows S R (fun mid => P mid → ∀ after, S.applyAll ws mid = some after → P after) pending db

/-- The statements of an open transaction can be committed to every later state. -/
def HoldsSafely (S : StatementSemantics Db W E) (R : Db → Db → Prop) (P : Db → Prop) (db : Db)
    (pending : List W) : Prop :=
  ∀ later mid, R db later → P later → S.applyAll pending later = some mid → P mid

section

variable {db : Db} {pending ws : List W} {n : ℕ}

theorem holdsSafely_nil (db : Db) : HoldsSafely S R P db [] := by
  intro later mid _ hlater happly
  cases happly
  exact hlater

theorem HoldsSafely.later (growth : Growth S R) {db' : Db} (hr : R db db')
    (h : HoldsSafely S R P db pending) : HoldsSafely S R P db' pending :=
  fun later mid hlater => h later mid (growth.trans _ _ _ hr hlater)

theorem HoldsSafely.flush (h : HoldsSafely S R P db pending)
    (sends : SendsSafely S R P db pending n ws) : HoldsSafely S R P db (pending ++ ws) := by
  intro later after hlater hp happly
  rw [StatementSemantics.applyAll_append] at happly
  obtain ⟨mid, hmid, hafter⟩ := Option.bind_eq_some_iff.mp happly
  exact sends later mid hlater hmid (h later mid hlater hp hmid) after hafter

end

/-- What can be said of a session between two steps: the committed state keeps the invariant, the
open transaction can be committed, and the session knows `K`. -/
structure Standing (S : StatementSemantics Db W E) (R : Db → Db → Prop) (P : Db → Prop)
    (K : Db → Prop) (pending : List W) (db : Db) : Prop where
  valid : P db
  holds : HoldsSafely S R P db pending
  knows : Knows S R K pending db

/-- How the committed state changes while a session runs. -/
def Keeps (R : Db → Db → Prop) (P : Db → Prop) (db db' : Db) : Prop := R db db' ∧ (P db → P db')

theorem Growth.keeps_refl (growth : Growth S R) (db : Db) : Keeps R P db db :=
  ⟨growth.refl db, id⟩

theorem Growth.keeps_trans (growth : Growth S R) (a b c : Db) (h : Keeps R P a b)
    (h' : Keeps R P b c) : Keeps R P a c := ⟨growth.trans a b c h.1 h'.1, h'.2 ∘ h.2⟩

section

variable {K : Db → Prop} {pending ws : List W} {db db' : Db} {n : ℕ}

theorem Standing.later (growth : Growth S R) (h : Standing S R P K pending db)
    (hr : Keeps R P db db') : Standing S R P K pending db' where
  valid := hr.2 h.valid
  holds := h.holds.later growth hr.1
  knows := h.knows.later growth hr.1

theorem Standing.flush (growth : Growth S R) (hstable : Stable R K)
    (h : Standing S R P K pending db) (sends : SendsSafely S R P db pending n ws) :
    Standing S R P K (pending ++ ws) db where
  valid := h.valid
  holds := h.holds.flush sends
  knows := h.knows.flush growth hstable

theorem Standing.commit (growth : Growth S R) (hstable : Stable R K)
    (h : Standing S R P K pending db) {view : Db} (happly : S.applyAll pending db = some view) :
    Standing S R P K [] view where
  valid := h.holds db view (growth.refl db) h.valid happly
  holds := holdsSafely_nil view
  knows := h.knows.commit growth hstable happly

theorem Standing.mono {K' : Db → Prop} (h : Standing S R P K pending db)
    (hk : ∀ db, K db → K' db) : Standing S R P K' pending db where
  valid := h.valid
  holds := h.holds
  knows later mid hlater hmid := hk mid (h.knows later mid hlater hmid)

end

/-! ## Answers -/

/-- Whatever states with the invariant the request reads, its answer satisfies `post`. -/
def Answers (P : Db → Prop) (post : α → Prop) : Request Db W E α → Prop
  | .done value => post value
  | .raise _ => True
  | .query next => ∀ view, P view → Answers P post (next view)
  | .flush _ next => Answers P post next
  | .commit next => Answers P post next

namespace Answers

variable {post : α → Prop} {post' : β → Prop}

theorem bind {p : Request Db W E α} {f : α → Request Db W E β} (h : Answers P post p)
    (hf : ∀ value, post value → Answers P post' (f value)) : Answers P post' (p >>= f) := by
  induction p with
  | done value => exact hf value h
  | raise error => trivial
  | query next ih => exact fun view hview => ih view (h view hview)
  | flush statements next ih => exact ih h
  | commit next ih => exact ih h

theorem mono {p : Request Db W E α} {weaker : α → Prop} (h : Answers P post p)
    (himp : ∀ value, post value → weaker value) : Answers P weaker p := by
  have hbind : Answers P weaker (p >>= fun value => .done value) := h.bind himp
  rwa [Request.bind_done] at hbind

/-- What is read is read of a state with the invariant. -/
theorem select (read : Db → α) :
    Answers P (fun value => ∃ view, P view ∧ read view = value)
      (Request.select read : Request Db W E α) := fun view hview => ⟨view, hview, rfl⟩

/-- What is answered may not matter to what follows. -/
theorem any (p : Request Db W E α) : Answers P (fun _ => True) p := by
  induction p with
  | done value => trivial
  | raise error => trivial
  | query next ih => exact fun view _ => ih view
  | flush statements next ih => exact ih
  | commit next ih => exact ih

theorem found {row : Option α} {error : E} :
    Answers P (fun value => row = some value) (Request.found row error : Request Db W E α) := by
  cases row with
  | none => trivial
  | some value => exact rfl

theorem ensure {c : Prop} [Decidable c] {error : E} :
    Answers P (fun _ => c) (Request.ensure c error : Request Db W E Unit) := by
  by_cases hc : c
  · rw [Request.ensure, if_pos hc]
    exact hc
  · rw [Request.ensure, if_neg hc]
    trivial

end Answers

/-! ## Safe requests -/

theorem Guarantees.query {G : Db → List W → ℕ → List W → Prop} {next : Db → Request Db W E α}
    {post : α → List W → Db → Prop} {pending : List W} {db : Db}
    (h : ∀ db' view, R db db' → S.applyAll pending db' = some view →
      Guarantees S R G (next view) post pending db') :
    Guarantees S R G (.query next) post pending db := by
  have hselect : Guarantees S R G (Request.select (fun view => view) >>= next) post pending db :=
    Guarantees.select_bind h
  exact hselect

/-- A session that knows `K` runs the request with safe flushes, and knows `K'` after it. -/
def Safe (S : StatementSemantics Db W E) (R : Db → Db → Prop) (P : Db → Prop) (K : Db → Prop)
    (p : Request Db W E α) (K' : α → Db → Prop) : Prop :=
  ∀ pending db, Standing S R P K pending db → Guarantees S (Keeps R P) (SendsSafely S R P) p
    (fun value pending' db' => Standing S R P (K' value) pending' db') pending db

namespace Safe

variable {K : Db → Prop}

theorem bind (growth : Growth S R) {p : Request Db W E α} {f : α → Request Db W E β}
    {K' : α → Db → Prop} {K'' : β → Db → Prop} (h : Safe S R P K p K')
    (hf : ∀ value, Safe S R P (K' value) (f value) K'') : Safe S R P K (p >>= f) K'' :=
  fun pending db hs => Guarantees.bind growth.keeps_refl
    (Guarantees.mono (fun _ _ _ _ sends => sends)
      (fun value pending' db' hs' => hf value pending' db' hs') (h pending db hs))

theorem mono {p : Request Db W E α} {K₀ : Db → Prop} {K' K₁ : α → Db → Prop}
    (h : Safe S R P K p K') (hpre : ∀ db, K₀ db → K db)
    (hpost : ∀ value db, K' value db → K₁ value db) : Safe S R P K₀ p K₁ :=
  fun pending db hs => Guarantees.mono (fun _ _ _ _ sends => sends)
    (fun value _ _ hs' => hs'.mono (hpost value)) (h pending db (hs.mono hpre))

theorem raise (error : E) {K' : α → Db → Prop} : Safe S R P K (.raise error) K' :=
  fun _ _ _ => Guarantees.raise

theorem done (growth : Growth S R) {value : α} {K' : α → Db → Prop} (h : ∀ db, K db → K' value db) :
    Safe S R P K (.done value) K' := by
  intro pending db hs
  apply Guarantees.return
  intro db' hdb'
  exact (hs.later growth hdb').mono h

theorem found (growth : Growth S R) {row : Option α} {error : E} :
    Safe S R P K (Request.found row error) fun value db => K db ∧ row = some value := by
  cases row with
  | none => exact raise error
  | some value => exact done growth fun _ hk => ⟨hk, rfl⟩

theorem ensure (growth : Growth S R) {c : Prop} [Decidable c] {error : E} :
    Safe S R P K (Request.ensure c error) fun _ db => K db ∧ c := by
  by_cases hc : c
  · rw [Request.ensure, if_pos hc]
    exact done growth fun _ hk => ⟨hk, hc⟩
  · rw [Request.ensure, if_neg hc]
    exact raise error

/-- What was read is what an earlier state had, which keeps the invariant too. -/
theorem select (growth : Growth S R) (read : Db → α) :
    Safe S R P K (Request.select read) fun value mid =>
      ∃ view, P view ∧ K view ∧ R view mid ∧ read view = value := by
  intro pending db hs
  apply Guarantees.select
  intro seen view db' hseen hview hdb'
  have hstanding := hs.later growth hseen
  have hlast := hstanding.later growth hdb'
  refine ⟨hlast.valid, hlast.holds, ?_⟩
  intro later mid hlater hmid
  have hread : R view mid :=
    growth.applyAll_mono (growth.trans _ _ _ hdb'.1 hlater) hview hmid
  exact ⟨view, hstanding.holds seen view (growth.refl seen) hstanding.valid hview,
    hstanding.knows seen view (growth.refl seen) hview, hread, rfl⟩

theorem send (growth : Growth S R) (hstable : Stable R K) {statements : ℕ → List W}
    (h : ∀ mid after n, K mid → P mid → S.applyAll (statements n) mid = some after → P after) :
    Safe S R P K (Request.send statements) fun _ => K := by
  intro pending db hs
  have hsend : Guarantees S (Keeps R P) (SendsSafely S R P)
      (Request.send statements >>= Request.done)
      (fun _ pending' db' => Standing S R P K pending' db') pending db := by
    apply Guarantees.send_bind
    intro db' n hdb'
    have hstanding := hs.later growth hdb'
    have hsafe : SendsSafely S R P db' pending n (statements n) := by
      intro later mid hlater hmid hp after hafter
      exact h mid after n (hstanding.knows later mid hlater hmid) hp hafter
    refine ⟨hsafe, ?_⟩
    apply Guarantees.return
    intro later hlater
    exact (hstanding.flush growth hstable hsafe).later growth hlater
  exact hsend

theorem commit (growth : Growth S R) (hstable : Stable R K) :
    Safe S R P K (Request.commitTransaction : Request Db W E Unit) fun _ => K := by
  intro pending db hs
  have hcommit : Guarantees S (Keeps R P) (SendsSafely S R P)
      (Request.commitTransaction >>= Request.done)
      (fun _ pending' db' => Standing S R P K pending' db') pending db := by
    apply Guarantees.commitTransaction_bind
    intro db' view hdb' hview
    apply Guarantees.return
    intro later hlater
    exact ((hs.later growth hdb').commit growth hstable hview).later growth hlater
  exact hcommit

/-- A request that sends only statements that keep the invariant by themselves, and its answer. -/
theorem of_answers (growth : Growth S R) (hstable : Stable R K) {Q : W → Prop} {post : α → Prop}
    {p : Request Db W E α} (h : p.Sends Q) (answers : Answers P post p)
    (keeps : ∀ w before after, Q w → S.apply w before = some after → P before → P after) :
    Safe S R P K p fun value db => K db ∧ post value := by
  induction p with
  | done value => exact done growth fun _ hk => ⟨hk, answers⟩
  | raise error => exact raise error
  | query next ih =>
    intro pending db hs
    apply Guarantees.query
    intro db' view hdb' hview
    have hstanding := hs.later growth hdb'
    have hp : P view := hstanding.holds db' view (growth.refl db') hstanding.valid hview
    exact ih view (h view) (answers view hp) pending db' hstanding
  | flush statements next ih =>
    have hsend : Safe S R P K (Request.send statements >>= fun _ => next)
        fun value db => K db ∧ post value :=
      (send growth hstable fun mid after n _ hmid hafter =>
        S.applyAll_preserves (fun w hw before after => keeps w before after (h.1 n w hw)) hafter
          hmid).bind growth fun _ => ih h.2 answers
    exact hsend
  | commit next ih =>
    have hcommit : Safe S R P K (Request.commitTransaction >>= fun _ => next)
        fun value db => K db ∧ post value :=
      (commit growth hstable).bind growth fun _ => ih h answers
    exact hcommit

/-- A session whose transaction no later state takes is not heard of again. -/
theorem dead (growth : Growth S R) {p : Request Db W E α} {K' : α → Db → Prop} {pending : List W}
    {db : Db} (hvalid : P db)
    (hdead : ∀ later mid, R db later → S.applyAll pending later ≠ some mid) :
    Guarantees S (Keeps R P) (SendsSafely S R P) p
      (fun value pending' db' => Standing S R P (K' value) pending' db') pending db := by
  induction p generalizing pending db with
  | done value =>
    apply Guarantees.return
    intro db' hdb'
    have hnone := fun later mid (hlater : R db' later) =>
      hdead later mid (growth.trans _ _ _ hdb'.1 hlater)
    exact ⟨hdb'.2 hvalid, fun later mid hlater _ h => absurd h (hnone later mid hlater),
      fun later mid hlater h => absurd h (hnone later mid hlater)⟩
  | raise error => exact Guarantees.raise
  | query next _ =>
    apply Guarantees.query
    intro db' view hdb' hview
    exact absurd hview (hdead db' view hdb'.1)
  | flush statements next ih =>
    have hsend : Guarantees S (Keeps R P) (SendsSafely S R P)
        (Request.send statements >>= fun _ => next)
        (fun value pending' db' => Standing S R P (K' value) pending' db') pending db := by
      apply Guarantees.send_bind
      intro db' n hdb'
      have hnone := fun later mid (hlater : R db' later) =>
        hdead later mid (growth.trans _ _ _ hdb'.1 hlater)
      refine ⟨fun later mid hlater h => absurd h (hnone later mid hlater), ih (hdb'.2 hvalid) ?_⟩
      intro later after hlater happly
      rw [StatementSemantics.applyAll_append] at happly
      obtain ⟨mid, hmid, -⟩ := Option.bind_eq_some_iff.mp happly
      exact hnone later mid hlater hmid
    exact hsend
  | commit next _ =>
    have hcommit : Guarantees S (Keeps R P) (SendsSafely S R P)
        (Request.commitTransaction >>= fun _ => next)
        (fun value pending' db' => Standing S R P (K' value) pending' db') pending db := by
      apply Guarantees.commitTransaction_bind
      intro db' view hdb' hview
      exact absurd hview (hdead db' view hdb'.1)
    exact hcommit

/-- What is known of no state in particular can be assumed. -/
theorem fact (growth : Growth S R) {φ : Prop} {p : Request Db W E α} {K' : α → Db → Prop}
    (h : φ → Safe S R P K p K') : Safe S R P (fun db => K db ∧ φ) p K' := by
  intro pending db hs
  by_cases hφ : φ
  · exact h hφ pending db (hs.mono fun _ hk => hk.1)
  · apply dead growth hs.valid
    intro later mid hlater hmid
    exact hφ (hs.knows later mid hlater hmid).2

theorem of_sends (growth : Growth S R) (hstable : Stable R K) {Q : W → Prop}
    {p : Request Db W E α} (h : p.Sends Q)
    (keeps : ∀ w before after, Q w → S.apply w before = some after → P before → P after) :
    Safe S R P K p fun _ => K :=
  (of_answers growth hstable h (Answers.any p) keeps).mono (fun _ hk => hk) fun _ _ hk => hk.1

/-- A request that only reads. -/
theorem of_readsOnly (growth : Growth S R) (hstable : Stable R K) {p : Request Db W E α}
    (h : p.ReadsOnly) : Safe S R P K p fun _ => K :=
  of_sends (Q := fun _ => False) growth hstable h.sends fun _ _ _ hw => hw.elim

end Safe

/-! ## Runs -/

theorem Server.Reaches.trans {cond : Db → List W → Prop} {σ σ' σ'' : Server Db W E α}
    (h : Server.Reaches S cond σ σ') (h' : Server.Reaches S cond σ' σ'') :
    Server.Reaches S cond σ σ'' := by
  induction h' with
  | refl => exact h
  | step _ move hcond ih => exact ih.step move hcond

section

variable {cond : Db → List W → Prop} {db : Db} {n : ℕ} {requests : List (Request Db W E α)}
  {σ : Server Db W E α}

/-- Interleavings of safe requests keep the invariant, and every open transaction can be
committed. -/
theorem Server.Reaches.holds (growth : Growth S R) (start_ : P db)
    (safe : ∀ p ∈ requests, Safe S R P (fun _ => True) p fun _ _ => True)
    (run : Server.Reaches S cond (start db n requests) σ) :
    P σ.committed ∧ ∀ s ∈ σ.sessions, HoldsSafely S R P σ.committed s.pending := by
  have hstanding : Standing S R P (fun _ => True) [] db :=
    ⟨start_, holdsSafely_nil db, fun _ _ _ _ => trivial⟩
  have promise : ∀ p ∈ requests,
      Guarantees S (Keeps R P) (SendsSafely S R P) p (fun _ _ _ => True) [] db := fun p hp =>
    Guarantees.mono (fun _ _ _ _ sends => sends) (fun _ _ _ _ => trivial)
      (safe p hp [] db hstanding)
  have hrun := Server.Reaches.preserves P (HoldsSafely S R P) growth.keeps_refl
    growth.keeps_trans holdsSafely_nil (fun _ _ _ hr held => held.later growth hr.1)
    (fun _ _ _ _ held sends => held.flush sends)
    (fun db _ view hp held _ happly =>
      have hview : P view := held db view (growth.refl db) hp happly
      ⟨hview, growth.applyAll happly, fun _ => hview⟩)
    start_ promise run
  exact ⟨hrun.1, hrun.2.2.1⟩

/-- The run lemma: interleavings of safe requests keep the invariant. -/
theorem Server.Reaches.safe (growth : Growth S R) (start_ : P db)
    (safe : ∀ p ∈ requests, Safe S R P (fun _ => True) p fun _ _ => True)
    (run : Server.Reaches S cond (start db n requests) σ) : P σ.committed :=
  (run.holds growth start_ safe).1

/-- What is left of every session answers as its request does. -/
theorem Answers.step {post : ℕ → α → Prop} {σ σ' : Server Db W E α} {a : Action}
    (move : σ.step S a = some σ')
    (views : ∀ s ∈ σ.sessions, ∀ view, S.applyAll s.pending σ.committed = some view → P view)
    (h : ∀ i s, σ.sessions[i]? = some s → Answers P (post i) s.program) :
    ∀ i s, σ'.sessions[i]? = some s → Answers P (post i) s.program := by
  obtain ⟨i, s, hs, effect⟩ := Server.step_effect move
  have hown := h i s hs
  have hset : ∀ {pending : List W} {program : Request Db W E α}, Answers P (post i) program →
      ∀ j t, (σ.sessions.set i ⟨pending, program⟩)[j]? = some t →
        Answers P (post j) t.program := by
    intro pending program hprogram j t ht
    by_cases hij : i = j
    · subst hij
      rw [List.getElem?_set_self (List.getElem?_eq_some_iff.mp hs).1] at ht
      cases ht
      exact hprogram
    · rw [List.getElem?_set_ne hij] at ht
      exact h j t ht
  cases effect with
  | moved next view program accepted =>
    rw [program] at hown
    exact hset (hown view (views s (List.mem_of_getElem? hs) view accepted))
  | dropped error sequence _ => exact hset trivial
  | flushed statements next view program _ _ =>
    rw [program] at hown
    exact hset hown
  | committed next view program _ _ =>
    rw [program] at hown
    exact hset hown

/-- The run lemma of the answers: a session that has ended has answered as its request does. -/
theorem Server.Reaches.answers (growth : Growth S R) {Q : ℕ → α → Prop} (start_ : P db)
    (safe : ∀ p ∈ requests, Safe S R P (fun _ => True) p fun _ _ => True)
    (h : ∀ i p, requests[i]? = some p → Answers P (Q i) p)
    (run : Server.Reaches S cond (start db n requests) σ) {i : ℕ} {pending : List W} {value : α}
    (hdone : σ.sessions[i]? = some ⟨pending, .done value⟩) : Q i value := by
  have hsessions : ∀ i s, σ.sessions[i]? = some s → Answers P (Q i) s.program := by
    clear hdone
    induction run with
    | refl =>
      intro i s hs
      simp only [start, List.getElem?_map, Option.map_eq_some_iff] at hs
      obtain ⟨p, hp, rfl⟩ := hs
      exact h i p hp
    | step before move _ ih =>
      apply Answers.step move _ ih
      intro s hs view hview
      obtain ⟨hp, held⟩ := before.holds growth start_ safe
      exact held s hs _ view (growth.refl _) hp hview
  exact hsessions i _ hdone

end

end NexusEngine.ReadCommittedSessions
