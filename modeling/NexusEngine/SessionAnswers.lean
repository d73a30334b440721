import NexusEngine.SessionInvariants

/-!
# The answers of sessions

What a session answers is computed from what it has read on the way, and the other sessions go on
in between. Whatever they are, a safe request that has answered knows what it promises to know
about the state that is committed by then.
-/

namespace NexusEngine.ReadCommittedSessions

open TransactionalRequests

variable {Db W E α β : Type} {S : StatementSemantics Db W E} {R : Db → Db → Prop} {P : Db → Prop}

/-! ## Requests that leave nothing open -/

/-- Where the request is answered, its statements are committed. `settled` says whether they are
so far. -/
def Settles : Bool → Request Db W E α → Prop
  | settled, .done _ => settled = true
  | _, .raise _ => True
  | settled, .query next => ∀ db, Settles settled (next db)
  | _, .flush _ next => Settles false next
  | _, .commit next => Settles true next

section

variable {settled : Bool} {p : Request Db W E α} {f : α → Request Db W E β}

theorem Settles.mono (h : Settles false p) : Settles settled p := by
  induction p with
  | done value => cases h
  | raise error => trivial
  | query next ih => exact fun db => ih db (h db)
  | flush statements next _ => exact h
  | commit next _ => exact h

theorem settles_of_readsOnly (h : p.ReadsOnly) : Settles true p := by
  induction p with
  | done value => rfl
  | raise error => trivial
  | query next ih => exact fun db => ih db (h db)
  | flush statements next _ => exact h.elim
  | commit next _ => exact h.elim

theorem settles_reads_bind (h : p.ReadsOnly) (hf : ∀ value, Settles settled (f value)) :
    Settles settled (p >>= f) := by
  induction p with
  | done value => exact hf value
  | raise error => trivial
  | query next ih => exact fun db => ih db (h db)
  | flush statements next _ => exact h.elim
  | commit next _ => exact h.elim

theorem Settles.answer {g : α → β} (h : Settles settled p) :
    Settles settled (p >>= fun value => return g value : Request Db W E β) := by
  induction p generalizing settled with
  | done value => exact h
  | raise error => trivial
  | query next ih => exact fun db => ih db (h db)
  | flush statements next ih => exact ih h
  | commit next ih => exact ih h

/-- A request that answers with what it has read. -/
theorem readsOnly_answer {g : α → β} (h : p.ReadsOnly) :
    (p >>= fun value => return g value : Request Db W E β).ReadsOnly := h.bind fun _ => trivial

theorem readsOnly_found {row : Option α} {error : E} :
    (Request.found row error : Request Db W E α).ReadsOnly := by
  cases row <;> trivial

theorem readsOnly_ensure {c : Prop} [Decidable c] {error : E} :
    (Request.ensure c error : Request Db W E Unit).ReadsOnly := by
  rw [Request.ensure]
  split <;> trivial

theorem settles_send_bind {statements : ℕ → List W} {next : Unit → Request Db W E α}
    (h : Settles false (next ())) : Settles settled (Request.send statements >>= next) := h

theorem settles_commit_bind {next : Unit → Request Db W E α} (h : Settles true (next ())) :
    Settles settled (Request.commitTransaction >>= next) := h

end

/-- A response made of what was answered. -/
theorem Safe.answer (growth : Growth S R) {K : Db → Prop} {K' : β → Db → Prop}
    {p : Request Db W E α} {g : α → β} (h : Safe S R P K p fun value => K' (g value)) :
    Safe S R P K (p >>= fun value => return g value) K' :=
  h.bind growth fun _ => Safe.done growth fun _ hk => hk

/-- What the statements of a flush see to is known after it. -/
theorem Safe.send_knows (growth : Growth S R) {K : Db → Prop} (K' : Db → Prop)
    {statements : ℕ → List W}
    (h : ∀ mid after n, K mid → P mid → S.applyAll (statements n) mid = some after → P after)
    (hk : ∀ mid after n, K mid → S.applyAll (statements n) mid = some after → K' after) :
    Safe S R P K (Request.send statements : Request Db W E Unit) fun _ => K' := by
  intro pending db hs
  have hsend : Guarantees S (Keeps R P) (SendsSafely S R P)
      (Request.send statements >>= Request.done)
      (fun _ pending' db' => Standing S R P K' pending' db') pending db := by
    apply Guarantees.send_bind
    intro db' n hdb'
    have hstanding := hs.later growth hdb'
    have hsafe : SendsSafely S R P db' pending n (statements n) := by
      intro later mid hlater hmid hp after hafter
      exact h mid after n (hstanding.knows later mid hlater hmid) hp hafter
    refine ⟨hsafe, ?_⟩
    apply Guarantees.return
    intro last hlast
    have hend := hstanding.later growth hlast
    refine ⟨hend.valid, (hstanding.holds.flush hsafe).later growth hlast.1, ?_⟩
    intro later after hlater happly
    rw [StatementSemantics.applyAll_append] at happly
    obtain ⟨mid, hmid, hafter⟩ := Option.bind_eq_some_iff.mp happly
    exact hk mid after n (hend.knows later mid hlater hmid) hafter
  exact hsend

/-! ## A session on its way -/

/-- What every statement keeps is kept, whatever the sessions run. -/
theorem Server.Reaches.keeps {cond : Db → List W → Prop} {σ σ' : Server Db W E α}
    (run : Server.Reaches S cond σ σ')
    (keeps : ∀ w db db', S.apply w db = some db' → P db → P db') (valid : P σ.committed) :
    P σ'.committed := by
  induction run with
  | refl => exact valid
  | step _ move _ ih =>
    obtain ⟨_, _, -, effect⟩ := Server.step_effect move
    cases effect with
    | moved => exact ih
    | dropped => exact ih
    | flushed => exact ih
    | committed next view _ _ accepted =>
      exact S.applyAll_preserves (fun w _ before after => keeps w before after) accepted ih

/-- What a request that has ended promises. -/
theorem Guarantees.done_step {G : Db → List W → ℕ → List W → Prop} {value : α}
    {post : α → List W → Db → Prop} {pending : List W} {db : Db} (refl : ∀ a, R a a)
    (h : Guarantees S R G (.done value) post pending db) : post value pending db := by
  with_unfolding_all exact h db (refl db)

/-- The session keeps the promise of its request from where it stands, and leaves nothing open. -/
structure OnItsWay (S : StatementSemantics Db W E) (R : Db → Db → Prop) (P : Db → Prop)
    (K : α → Db → Prop) (db : Db) (s : Session Db W E α) : Prop where
  promise : Guarantees S (Keeps R P) (SendsSafely S R P) s.program
    (fun value pending db => Standing S R P (K value) pending db) s.pending db
  settles : Settles s.pending.isEmpty s.program

section

variable {K : α → Db → Prop} {σ σ' : Server Db W E α} {s : Session Db W E α} {i : ℕ} {a : Action}

theorem OnItsWay.later (growth : Growth S R) {db db' : Db} (h : OnItsWay S R P K db s)
    (hr : Keeps R P db db') : OnItsWay S R P K db' s where
  promise := Guarantees.later growth.keeps_trans h.promise hr
  settles := h.settles

theorem OnItsWay.raise {db : Db} (error : E) : OnItsWay S R P K db ⟨[], .raise error⟩ where
  promise := Guarantees.raise
  settles := trivial

/-- The step lemma: the session goes on, or another one does. -/
theorem OnItsWay.step (growth : Growth S R)
    (keeps : ∀ w db db', S.apply w db = some db' → P db → P db')
    (move : σ.step S a = some σ') (hs : σ.sessions[i]? = some s)
    (h : OnItsWay S R P K σ.committed s) :
    Keeps R P σ.committed σ'.committed ∧
      ∃ s', σ'.sessions[i]? = some s' ∧ OnItsWay S R P K σ'.committed s' := by
  obtain ⟨j, t, ht, effect⟩ := Server.step_effect move
  have hi : i < σ.sessions.length := (List.getElem?_eq_some_iff.mp hs).1
  -- the session that moves is replaced, and every other one is as it was
  have hset : ∀ {db : Db} {t' : Session Db W E α}, Keeps R P σ.committed db →
      (OnItsWay S R P K σ.committed t → OnItsWay S R P K db t') →
        ∃ s', (σ.sessions.set j t')[i]? = some s' ∧ OnItsWay S R P K db s' := by
    intro db t' hr hnext
    by_cases hij : j = i
    · subst hij
      obtain rfl : s = t := Option.some.inj (hs.symm.trans ht)
      exact ⟨t', List.getElem?_set_self hi, hnext h⟩
    · exact ⟨s, (List.getElem?_set_ne hij).trans hs, h.later growth hr⟩
  have hrefl := growth.keeps_refl (P := P) σ.committed
  cases effect with
  | moved next view program accepted =>
    refine ⟨hrefl, hset hrefl ?_⟩
    intro ht
    obtain ⟨hpromise, hsettles⟩ := ht
    rw [program] at hpromise hsettles
    exact ⟨hpromise.query_step hrefl accepted, hsettles view⟩
  | dropped error sequence _ => exact ⟨hrefl, hset hrefl fun _ => .raise error⟩
  | flushed statements next view program _ _ =>
    refine ⟨hrefl, hset hrefl ?_⟩
    intro ht
    obtain ⟨hpromise, hsettles⟩ := ht
    rw [program] at hpromise hsettles
    exact ⟨(hpromise.flush_step hrefl _).2, Settles.mono hsettles⟩
  | committed next view program _ accepted =>
    have hkeeps : Keeps R P σ.committed view :=
      ⟨growth.applyAll accepted, fun hp =>
        S.applyAll_preserves (fun w _ before after => keeps w before after) accepted hp⟩
    refine ⟨hkeeps, hset hkeeps ?_⟩
    intro ht
    obtain ⟨hpromise, hsettles⟩ := ht
    rw [program] at hpromise hsettles
    exact ⟨hpromise.commit_step hrefl accepted, hsettles⟩

theorem OnItsWay.reaches (growth : Growth S R)
    (keeps : ∀ w db db', S.apply w db = some db' → P db → P db') {cond : Db → List W → Prop}
    (run : Server.Reaches S cond σ σ') (hs : σ.sessions[i]? = some s)
    (h : OnItsWay S R P K σ.committed s) :
    Keeps R P σ.committed σ'.committed ∧
      ∃ s', σ'.sessions[i]? = some s' ∧ OnItsWay S R P K σ'.committed s' := by
  induction run with
  | refl => exact ⟨growth.keeps_refl _, s, hs, h⟩
  | step _ move _ ih =>
    obtain ⟨hbefore, s', hs', h'⟩ := ih
    obtain ⟨hstep, hnext⟩ := h'.step growth keeps move hs'
    exact ⟨growth.keeps_trans _ _ _ hbefore hstep, hnext⟩

/-- The run lemma: a request that has been answered since the state `σ`, whatever the other sessions
of that state run, has committed its statements, and what it knows holds. -/
theorem Server.Reaches.answered (growth : Growth S R)
    (keeps : ∀ w db db', S.apply w db = some db' → P db → P db') {cond : Db → List W → Prop}
    {p : Request Db W E α} (safe : Safe S R P (R σ.committed) p K) (settles : Settles true p)
    (run : Server.Reaches S cond σ σ') (valid : P σ.committed)
    (begins : σ.sessions[i]? = some ⟨[], p⟩) {pending : List W} {value : α}
    (ends : σ'.sessions[i]? = some ⟨pending, .done value⟩) :
    pending = [] ∧ P σ'.committed ∧ R σ.committed σ'.committed ∧ K value σ'.committed := by
  have hstanding : Standing S R P (R σ.committed) [] σ.committed := by
    refine ⟨valid, holdsSafely_nil _, ?_⟩
    intro later mid hlater hmid
    cases hmid
    exact hlater
  have hway : OnItsWay S R P K σ.committed ⟨[], p⟩ := ⟨safe [] _ hstanding, settles⟩
  obtain ⟨hkeeps, s', hs', hpromise, hsettles⟩ := hway.reaches growth keeps run begins
  obtain rfl := Option.some.inj (ends.symm.trans hs')
  have hnil : pending = [] := List.isEmpty_iff.mp hsettles
  subst hnil
  have hlast := Guarantees.done_step growth.keeps_refl hpromise
  exact ⟨rfl, hlast.valid, hkeeps.1, hlast.knows _ _ (growth.refl _) rfl⟩

end

end NexusEngine.ReadCommittedSessions
