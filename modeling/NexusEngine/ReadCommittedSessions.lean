import NexusEngine.TransactionalRequests
import Mathlib.Data.List.Basic

/-!
# Interleaved requests under read committed

Any number of sessions run their requests on one store, one statement of one session at a
time. A query sees the committed rows and the session's own uncommitted statements. A flush
waits while another session holds a conflicting statement. A commit installs the session's
statements in the committed state as it is by then. A session can be aborted at any point.
-/

namespace NexusEngine.ReadCommittedSessions

open TransactionalRequests

variable {Db W E α : Type}

/-- A session: the statements of its open transaction, and what is left of its request. -/
structure Session (Db W E α : Type) where
  pending : List W
  program : Request Db W E α

structure Server (Db W E α : Type) where
  committed : Db
  sequence : ℕ
  sessions : List (Session Db W E α)

inductive Action where
  | run (i : ℕ)
  | abort (i : ℕ)
  deriving DecidableEq, Repr

/-- Requests that have not issued a statement yet. -/
def start (db : Db) (sequence : ℕ) (requests : List (Request Db W E α)) :
    Server Db W E α :=
  ⟨db, sequence, requests.map fun p => ⟨[], p⟩⟩

/-- Some other session holds an uncommitted statement that `ws` has to wait for. -/
def blocked (S : StatementSemantics Db W E) (sessions : List (Session Db W E α)) (i : ℕ)
    (ws : List W) : Bool :=
  (sessions.zipIdx).any fun s => s.2 != i &&
    s.1.pending.any fun w => ws.any fun w' => S.conflicts w w'

namespace Server

/-- Replace one session. -/
def setSession (σ : Server Db W E α) (i : ℕ) (s : Session Db W E α) : Server Db W E α :=
  { σ with sessions := σ.sessions.set i s }

theorem forall_setSession {P : Session Db W E α → Prop} {σ : Server Db W E α} {i : ℕ}
    {s : Session Db W E α} (h : ∀ t ∈ σ.sessions, P t) (hs : P s) :
    ∀ t ∈ (σ.setSession i s).sessions, P t := by
  intro t ht
  rcases List.mem_or_eq_of_mem_set ht with ht | rfl
  · exact h t ht
  · exact hs

/-- One step of the interleaving. It is `none` where the session cannot step: there is no
such session, its request has ended, or its flush has to wait. -/
def step (S : StatementSemantics Db W E) (σ : Server Db W E α) :
    Action → Option (Server Db W E α)
  | .abort i =>
    match σ.sessions[i]? with
    | none => none
    | some _ => some (σ.setSession i ⟨[], .raise S.rejected⟩)
  | .run i =>
    match σ.sessions[i]? with
    | none => none
    | some s =>
      match s.program with
      | .done _ => none
      | .raise error => some (σ.setSession i ⟨[], .raise error⟩)
      | .query next =>
        match S.applyAll s.pending σ.committed with
        | none => some (σ.setSession i ⟨[], .raise S.rejected⟩)
        | some view => some (σ.setSession i ⟨s.pending, next view⟩)
      | .flush statements next =>
        if blocked S σ.sessions i (statements σ.sequence) then none
        else
          match S.applyAll (s.pending ++ statements σ.sequence) σ.committed with
          | none =>
            some { σ.setSession i ⟨[], .raise S.rejected⟩ with sequence := σ.sequence + 1 }
          | some _ =>
            some { σ.setSession i ⟨s.pending ++ statements σ.sequence, next⟩ with
              sequence := σ.sequence + 1 }
      | .commit next =>
        match S.applyAll s.pending σ.committed with
        | none => some (σ.setSession i ⟨[], .raise S.rejected⟩)
        | some view => some { σ.setSession i ⟨[], next⟩ with committed := view }

/-- The statements that the step commits, where it is a commit. -/
def committing (σ : Server Db W E α) : Action → Option (List W)
  | .abort _ => none
  | .run i =>
    match σ.sessions[i]? with
    | some ⟨pending, .commit _⟩ => some pending
    | _ => none

/-- Reachable by a run in which every commit finds the committed state, and the statements
it makes durable, in the relation `cond`. -/
inductive Reaches (S : StatementSemantics Db W E) (cond : Db → List W → Prop)
    (σ : Server Db W E α) : Server Db W E α → Prop where
  | refl : Reaches S cond σ σ
  | step {σ₁ σ₂ : Server Db W E α} {a : Action} (before : Reaches S cond σ σ₁)
      (move : σ₁.step S a = some σ₂)
      (meets : ∀ ws, σ₁.committing a = some ws → cond σ₁.committed ws) : Reaches S cond σ σ₂

/-- Run a schedule, as long as its commits pass the check. -/
def run (S : StatementSemantics Db W E) (check : Db → List W → Bool) (σ : Server Db W E α) :
    List Action → Option (Server Db W E α)
  | [] => some σ
  | a :: as =>
    if (σ.committing a).all (check σ.committed) then
      (σ.step S a).bind fun σ' => σ'.run S check as
    else none

theorem Reaches.of_run {S : StatementSemantics Db W E} {cond : Db → List W → Prop}
    {check : Db → List W → Bool} (sound : ∀ db ws, check db ws = true → cond db ws)
    {as : List Action} {σ σ₁ σ₂ : Server Db W E α} (before : Reaches S cond σ σ₁)
    (h : σ₁.run S check as = some σ₂) : Reaches S cond σ σ₂ := by
  induction as generalizing σ₁ with
  | nil =>
    cases h
    exact before
  | cons a as ih =>
    rw [run, Option.ite_none_right_eq_some] at h
    obtain ⟨hcheck, h⟩ := h
    obtain ⟨next, hstep, hrest⟩ := Option.bind_eq_some_iff.mp h
    have hmeets : ∀ ws, σ₁.committing a = some ws → cond σ₁.committed ws := by
      intro ws hws
      rw [hws, Option.all_some] at hcheck
      exact sound _ _ hcheck
    exact ih (.step before hstep hmeets) hrest

/-- What one step can do to a session and to the committed rows. -/
inductive Effect (S : StatementSemantics Db W E) (σ : Server Db W E α) (a : Action) (i : ℕ)
    (s : Session Db W E α) : Server Db W E α → Prop where
  | moved (next : Db → Request Db W E α) (view : Db) (program : s.program = .query next)
      (accepted : S.applyAll s.pending σ.committed = some view) :
      Effect S σ a i s (σ.setSession i ⟨s.pending, next view⟩)
  | dropped (error : E) (sequence : ℕ) (h : σ.sequence ≤ sequence) :
      Effect S σ a i s { σ.setSession i ⟨[], .raise error⟩ with sequence := sequence }
  | flushed (statements : ℕ → List W) (next : Request Db W E α) (view : Db)
      (program : s.program = .flush statements next)
      (free : blocked S σ.sessions i (statements σ.sequence) = false)
      (accepted : S.applyAll (s.pending ++ statements σ.sequence) σ.committed = some view) :
      Effect S σ a i s { σ.setSession i ⟨s.pending ++ statements σ.sequence, next⟩ with
        sequence := σ.sequence + 1 }
  | committed (next : Request Db W E α) (view : Db) (program : s.program = .commit next)
      (commits : σ.committing a = some s.pending)
      (accepted : S.applyAll s.pending σ.committed = some view) :
      Effect S σ a i s { σ.setSession i ⟨[], next⟩ with committed := view }

theorem step_effect {S : StatementSemantics Db W E} {σ σ' : Server Db W E α} {a : Action}
    (h : σ.step S a = some σ') :
    ∃ i s, σ.sessions[i]? = some s ∧ Effect S σ a i s σ' := by
  cases a with
  | abort i =>
    cases hs : σ.sessions[i]? with
    | none => simp [step, hs] at h
    | some s =>
      simp only [step, hs, Option.some.injEq] at h
      subst h
      exact ⟨i, s, hs, .dropped S.rejected σ.sequence (Nat.le_refl _)⟩
  | run i =>
    cases hs : σ.sessions[i]? with
    | none => simp [step, hs] at h
    | some s =>
      refine ⟨i, s, hs, ?_⟩
      simp only [step, hs] at h
      cases hp : s.program with
      | done value => simp [hp] at h
      | raise error =>
        simp only [hp, Option.some.injEq] at h
        subst h
        exact .dropped error σ.sequence (Nat.le_refl _)
      | query next =>
        simp only [hp] at h
        cases hv : S.applyAll s.pending σ.committed with
        | none =>
          simp only [hv, Option.some.injEq] at h
          subst h
          exact .dropped S.rejected σ.sequence (Nat.le_refl _)
        | some view =>
          simp only [hv, Option.some.injEq] at h
          subst h
          exact .moved next view hp hv
      | flush statements next =>
        cases hb : blocked S σ.sessions i (statements σ.sequence) with
        | true => simp [hp, hb] at h
        | false =>
          simp only [hp, hb, Bool.false_eq_true, ↓reduceIte] at h
          cases hv : S.applyAll (s.pending ++ statements σ.sequence) σ.committed with
          | none =>
            simp only [hv, Option.some.injEq] at h
            subst h
            exact .dropped S.rejected (σ.sequence + 1) (Nat.le_succ _)
          | some view =>
            simp only [hv, Option.some.injEq] at h
            subst h
            exact .flushed statements next view hp hb hv
      | commit next =>
        simp only [hp] at h
        cases hv : S.applyAll s.pending σ.committed with
        | none =>
          simp only [hv, Option.some.injEq] at h
          subst h
          exact .dropped S.rejected σ.sequence (Nat.le_refl _)
        | some view =>
          simp only [hv, Option.some.injEq] at h
          subst h
          have hcommits : σ.committing (.run i) = some s.pending := by
            obtain ⟨pending, program⟩ := s
            subst hp
            simp only [committing, hs]
          exact .committed next view hp hcommits hv

/-- A commit whose statements are accepted installs them. -/
theorem step_of_committing {S : StatementSemantics Db W E} {σ σ' : Server Db W E α} {a : Action}
    {ws : List W} {view : Db} (commits : σ.committing a = some ws)
    (accepted : S.applyAll ws σ.committed = some view) (h : σ.step S a = some σ') :
    ∃ i next, σ.sessions[i]? = some ⟨ws, .commit next⟩ ∧
      σ' = { σ.setSession i ⟨[], next⟩ with committed := view } := by
  cases a with
  | abort i => nomatch commits
  | run i =>
    cases hs : σ.sessions[i]? with
    | none => simp [step, hs] at h
    | some s =>
      obtain ⟨pending, program⟩ := s
      cases program with
      | commit next =>
        obtain rfl : pending = ws := by simpa [committing, hs] using commits
        simp only [step, hs, accepted, Option.some.injEq] at h
        exact ⟨i, next, hs, h.symm⟩
      | _ => simp [committing, hs] at commits

end Server

/-! ## What a request promises about its flushes

`R` says how the committed state may change while a request runs, whoever changes it. `G`
says what the statements of a flush may be, given the committed state, what the session
already holds and the identity number. The promise is checked on the request's own tree, once.
-/

/-- Every flush of the request satisfies `G`, whatever `R` lets the committed state do in
between. -/
def Guarantees (S : StatementSemantics Db W E) (R : Db → Db → Prop)
    (G : Db → List W → ℕ → List W → Prop) :
    Request Db W E α → (α → List W → Db → Prop) → List W → Db → Prop
  | .done value, post, pending, db => ∀ db', R db db' → post value pending db'
  | .raise _, _, _, _ => True
  | .query next, post, pending, db => ∀ db' view, R db db' →
      S.applyAll pending db' = some view → Guarantees S R G (next view) post pending db'
  | .flush statements next, post, pending, db => ∀ db' n, R db db' →
      G db' pending n (statements n) ∧
        Guarantees S R G next post (pending ++ statements n) db'
  | .commit next, post, pending, db => ∀ db' view, R db db' →
      S.applyAll pending db' = some view → Guarantees S R G next post [] view

section Guarantees

variable {β : Type} {S : StatementSemantics Db W E} {R : Db → Db → Prop}
  {G : Db → List W → ℕ → List W → Prop}

/-- A promise survives every change that `R` allows. -/
theorem Guarantees.later (trans : ∀ a b c, R a b → R b c → R a c) {p : Request Db W E α}
    {post : α → List W → Db → Prop} {pending : List W} {db db' : Db}
    (h : Guarantees S R G p post pending db) (hr : R db db') :
    Guarantees S R G p post pending db' := by
  cases p with
  | done value => exact fun d hd => h d (trans _ _ _ hr hd)
  | raise error => trivial
  | query next => exact fun d view hd => h d view (trans _ _ _ hr hd)
  | flush statements next => exact fun d n hd => h d n (trans _ _ _ hr hd)
  | commit next => exact fun d view hd => h d view (trans _ _ _ hr hd)

theorem Guarantees.bind (refl : ∀ a, R a a) {p : Request Db W E α}
    {f : α → Request Db W E β} {post : β → List W → Db → Prop} {pending : List W} {db : Db}
    (h : Guarantees S R G p (fun value pending' db' =>
      Guarantees S R G (f value) post pending' db') pending db) :
    Guarantees S R G (p >>= f) post pending db := by
  induction p generalizing pending db with
  | done value => exact h db (refl db)
  | raise error => trivial
  | query next ih => exact fun d view hd hv => ih view (h d view hd hv)
  | flush statements next ih => exact fun d n hd => ⟨(h d n hd).1, ih (h d n hd).2⟩
  | commit next ih => exact fun d view hd hv => ih (h d view hd hv)

theorem Guarantees.mono {p : Request Db W E α} {post post' : α → List W → Db → Prop}
    {G' : Db → List W → ℕ → List W → Prop}
    (hG : ∀ db pending n ws, G db pending n ws → G' db pending n ws)
    (hpost : ∀ value pending db, post value pending db → post' value pending db)
    {pending : List W} {db : Db} (h : Guarantees S R G p post pending db) :
    Guarantees S R G' p post' pending db := by
  induction p generalizing pending db with
  | done value => exact fun d hd => hpost _ _ _ (h d hd)
  | raise error => trivial
  | query next ih => exact fun d view hd hv => ih view (h d view hd hv)
  | flush statements next ih =>
    exact fun d n hd => ⟨hG _ _ _ _ (h d n hd).1, ih (h d n hd).2⟩
  | commit next ih => exact fun d view hd hv => ih (h d view hd hv)

/-! The rules, one for each kind of step. -/

theorem Guarantees.raise {error : E} {post : α → List W → Db → Prop} {pending : List W} {db : Db} :
    Guarantees S R G (.raise error) post pending db := trivial

theorem Guarantees.return {value : α} {post : α → List W → Db → Prop} {pending : List W}
    {db : Db} (h : ∀ db', R db db' → post value pending db') :
    Guarantees S R G (return value) post pending db := h

theorem Guarantees.select {read : Db → α} {post : α → List W → Db → Prop} {pending : List W}
    {db : Db} (h : ∀ seen view db', R db seen → S.applyAll pending seen = some view → R seen db' →
      post (read view) pending db') :
    Guarantees S R G (Request.select read) post pending db :=
  fun seen view hseen hview db' hdb' => h seen view db' hseen hview hdb'

theorem Guarantees.select_bind {read : Db → β} {f : β → Request Db W E α}
    {post : α → List W → Db → Prop} {pending : List W} {db : Db}
    (h : ∀ db' view, R db db' → S.applyAll pending db' = some view →
      Guarantees S R G (f (read view)) post pending db') :
    Guarantees S R G (Request.select read >>= f) post pending db := h

theorem Guarantees.send_bind {statements : ℕ → List W} {f : Unit → Request Db W E α}
    {post : α → List W → Db → Prop} {pending : List W} {db : Db}
    (h : ∀ db' n, R db db' → G db' pending n (statements n) ∧
      Guarantees S R G (f ()) post (pending ++ statements n) db') :
    Guarantees S R G (Request.send statements >>= f) post pending db := h

theorem Guarantees.commitTransaction_bind {f : Unit → Request Db W E α}
    {post : α → List W → Db → Prop} {pending : List W} {db : Db}
    (h : ∀ db' view, R db db' → S.applyAll pending db' = some view →
      Guarantees S R G (f ()) post [] view) :
    Guarantees S R G (Request.commitTransaction >>= f) post pending db := h

/-! What a promise says about the step that comes next. -/

theorem Guarantees.query_step {next : Db → Request Db W E α} {post : α → List W → Db → Prop}
    {pending : List W} {db db' view : Db} (h : Guarantees S R G (.query next) post pending db)
    (hr : R db db') (hview : S.applyAll pending db' = some view) :
    Guarantees S R G (next view) post pending db' := h db' view hr hview

theorem Guarantees.flush_step {statements : ℕ → List W} {next : Request Db W E α}
    {post : α → List W → Db → Prop} {pending : List W} {db db' : Db}
    (h : Guarantees S R G (.flush statements next) post pending db) (hr : R db db') (n : ℕ) :
    G db' pending n (statements n) ∧
      Guarantees S R G next post (pending ++ statements n) db' := h db' n hr

theorem Guarantees.commit_step {next : Request Db W E α} {post : α → List W → Db → Prop}
    {pending : List W} {db db' view : Db} (h : Guarantees S R G (.commit next) post pending db)
    (hr : R db db') (hview : S.applyAll pending db' = some view) :
    Guarantees S R G next post [] view := h db' view hr hview

/-- Every session keeps the promise from where it stands. -/
def Server.Behaves (S : StatementSemantics Db W E) (R : Db → Db → Prop)
    (G : Db → List W → ℕ → List W → Prop) (σ : Server Db W E α) : Prop :=
  ∀ s ∈ σ.sessions, Guarantees S R G s.program (fun _ _ _ => True) s.pending σ.committed

theorem behaves_start {db : Db} {sequence : ℕ} {requests : List (Request Db W E α)}
    (h : ∀ p ∈ requests, Guarantees S R G p (fun _ _ _ => True) [] db) :
    (start db sequence requests).Behaves S R G := by
  intro s hs
  obtain ⟨p, hp, rfl⟩ := List.mem_map.mp hs
  exact h p hp

/-- A flush about to happen satisfies the guarantee. -/
theorem Server.Behaves.flushing {σ : Server Db W E α} (h : σ.Behaves S R G)
    (refl : ∀ a, R a a) {i : ℕ} {s : Session Db W E α} {statements : ℕ → List W}
    {next : Request Db W E α} (hs : σ.sessions[i]? = some s)
    (hp : s.program = .flush statements next) (n : ℕ) :
    G σ.committed s.pending n (statements n) := by
  have hg := h s (List.mem_of_getElem? hs)
  rw [hp] at hg
  exact (hg.flush_step (refl _) n).1

/-- The step lemma of the promise: it holds again after every step whose change of the
committed state `R` allows. -/
theorem Server.Behaves.step (refl : ∀ a, R a a) (trans : ∀ a b c, R a b → R b c → R a c)
    {σ σ' : Server Db W E α} {a : Action} (h : σ.Behaves S R G)
    (move : σ.step S a = some σ') (hr : R σ.committed σ'.committed) :
    σ'.Behaves S R G := by
  obtain ⟨i, s, hs, effect⟩ := Server.step_effect move
  have hg := h s (List.mem_of_getElem? hs)
  cases effect with
  | moved next view program accepted =>
    rw [program] at hg
    exact Server.forall_setSession h (hg.query_step (refl _) accepted)
  | dropped error sequence _ => exact Server.forall_setSession h Guarantees.raise
  | flushed statements next view program _ _ =>
    rw [program] at hg
    exact Server.forall_setSession h (hg.flush_step (refl _) _).2
  | committed next view program _ accepted =>
    rw [program] at hg
    have others : ∀ t ∈ σ.sessions,
        Guarantees S R G t.program (fun _ _ _ => True) t.pending view :=
      fun t ht => Guarantees.later trans (h t ht) hr
    exact Server.forall_setSession others (hg.commit_step (refl _) accepted)

-- The rules above are the only way to check a promise.
attribute [irreducible] Guarantees

/-- The run lemma. `P` holds of the committed state and `Held` of the statements of every open
transaction, when flushes that keep the promise and commits that meet the condition see to it. -/
theorem Server.Reaches.preserves {cond : Db → List W → Prop} (P : Db → Prop)
    (Held : Db → List W → Prop) (refl : ∀ a, R a a) (trans : ∀ a b c, R a b → R b c → R a c)
    (none : ∀ db, Held db [])
    (later : ∀ db db' ws, R db db' → Held db ws → Held db' ws)
    (flush : ∀ db n pending ws, Held db pending → G db pending n ws → Held db (pending ++ ws))
    (commit : ∀ db ws view, P db → Held db ws → cond db ws → S.applyAll ws db = some view →
      P view ∧ R db view)
    {db : Db} {n : ℕ} {requests : List (Request Db W E α)} {σ : Server Db W E α} (start_ : P db)
    (promise : ∀ p ∈ requests, Guarantees S R G p (fun _ _ _ => True) [] db)
    (run : Server.Reaches S cond (start db n requests) σ) :
    P σ.committed ∧ R db σ.committed ∧ (∀ s ∈ σ.sessions, Held σ.committed s.pending) ∧
      σ.Behaves S R G := by
  induction run with
  | refl =>
    refine ⟨start_, refl db, fun s hs => ?_, behaves_start promise⟩
    obtain ⟨p, -, rfl⟩ := List.mem_map.mp hs
    exact none db
  | @step σ₁ σ₂ a _ move meets ih =>
    obtain ⟨hP, hR, hheld, hbehaves⟩ := ih
    obtain ⟨i, s, hs, effect⟩ := Server.step_effect move
    have hbehaves' := hbehaves.step refl trans move
    cases effect with
    | moved next view _ _ =>
      exact ⟨hP, hR, Server.forall_setSession hheld (hheld s (List.mem_of_getElem? hs)),
        hbehaves' (refl _)⟩
    | dropped error sequence _ =>
      exact ⟨hP, hR, Server.forall_setSession hheld (none _), hbehaves' (refl _)⟩
    | flushed statements next view program _ _ =>
      have hown := flush _ _ _ _ (hheld s (List.mem_of_getElem? hs))
        (hbehaves.flushing refl hs program σ₁.sequence)
      exact ⟨hP, hR, Server.forall_setSession hheld hown, hbehaves' (refl _)⟩
    | committed next view _ commits accepted =>
      obtain ⟨hview, hgrows⟩ :=
        commit _ _ _ hP (hheld s (List.mem_of_getElem? hs)) (meets _ commits) accepted
      have others : ∀ t ∈ σ₁.sessions, Held view t.pending :=
        fun t ht => later _ _ _ hgrows (hheld t ht)
      exact ⟨hview, trans _ _ _ hR hgrows, Server.forall_setSession others (none view),
        hbehaves' hgrows⟩

end Guarantees

end NexusEngine.ReadCommittedSessions
