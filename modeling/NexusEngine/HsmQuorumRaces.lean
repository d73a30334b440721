import NexusEngine.HsmLifecycle

/-!
# Concurrent approvals

Sessions approve and complete ceremonies under read committed. Approvals only grow, so that a
quorum that a completion has read is still there when it commits. What an interleaving can
spoil is that the approvals of a ceremony come from different custodians: nothing but a read
keeps two sessions from inserting an approval of one custodian each.
-/

namespace NexusEngine.HsmQuorumRaces

open TransactionalRequests ReadCommittedSessions StoredColumns KeyedTables HsmTables Database
  AuditService AuditAppends HsmService HsmLifecycle
open AuditVerification (sha256Crypto)

inductive QuorumRequest where
  | approveCeremony (env : HsmEnv) (ceremonyId : Uuid) (custodianEmail : String)
  | completeCeremony (env : HsmEnv) (ceremonyId : Uuid) (actor : String)

def QuorumRequest.request (crypto : AuditCrypto) : QuorumRequest → Service Unit
  | approveCeremony env ceremonyId custodianEmail =>
    (HsmRequest.approveCeremony env ceremonyId custodianEmail).request crypto
  | completeCeremony env ceremonyId actor =>
    (HsmRequest.completeCeremony env ceremonyId actor).request crypto

/-- A commit installs no approval of a custodian who has a committed one for the ceremony. -/
def NoSecondApproval (committed : Db) (ws : List Statement) : Prop :=
  ∀ a email, .hsm (.insertApproval a) ∈ ws → varchar 120 a.custodianEmail = some email →
    ∀ b ∈ approvalsOf committed.hsm a.ceremonyId, b.custodianEmail ≠ email

/-! ## Ceremonies stay and approvals grow -/

structure Grows (t t' : HsmStore) : Prop where
  approvals : ∀ id, approvalCount (approvalsOf t id) ≤ approvalCount (approvalsOf t' id)
  ceremonies : ∀ c ∈ t.ceremonies.rows, ∃ c' ∈ t'.ceremonies.rows,
    c'.id = c.id ∧ c'.requiredApprovals = c.requiredApprovals

theorem Grows.refl (t : HsmStore) : Grows t t :=
  ⟨fun _ => Nat.le_refl _, fun c hc => ⟨c, hc, rfl, rfl⟩⟩

theorem Grows.trans {t₁ t₂ t₃ : HsmStore} (h : Grows t₁ t₂) (h' : Grows t₂ t₃) :
    Grows t₁ t₃ where
  approvals id := Nat.le_trans (h.approvals id) (h'.approvals id)
  ceremonies c hc := by
    obtain ⟨c', hc', hid, hrequired⟩ := h.ceremonies c hc
    obtain ⟨c'', hc'', hid', hrequired'⟩ := h'.ceremonies c' hc'
    exact ⟨c'', hc'', hid'.trans hid, hrequired'.trans hrequired⟩

/-- The ceremony has as many approvals as it requires. -/
def QuorumMet (t : HsmStore) (id : Uuid) : Prop :=
  ∀ c ∈ t.ceremonies.rows, c.id = id → c.requiredApprovals ≤ approvalCount (approvalsOf t id)

theorem QuorumMet.later {t t' : HsmStore} {id : Uuid} (h : QuorumMet t id) (hex : ∃ c ∈
    t.ceremonies.rows, c.id = id) (hgrows : Grows t t') : QuorumMet t' id := by
  obtain ⟨c, hc, rfl⟩ := hex
  obtain ⟨c', hc', hid, hrequired⟩ := hgrows.ceremonies c hc
  intro d hd hdid
  obtain rfl : d = c' := t'.ceremonies.eq_of_key_eq hd hc' (hdid.trans hid.symm)
  rw [hrequired]
  exact Nat.le_trans (h c hc rfl) (hgrows.approvals c.id)

theorem approvalCount_append (as bs : List KeyCustodianApproval) :
    approvalCount (as ++ bs) = approvalCount as + approvalCount bs := by
  simp [approvalCount]

/-- Giving an approval leaves the others. -/
theorem approvalCount_update (rows : List KeyCustodianApproval) (id ceremonyId : Uuid)
    (now : ℕ) :
    approvalCount (rows.filter fun a => a.ceremonyId = ceremonyId) ≤
      approvalCount ((rows.map fun a => if a.id = id then { a with approvedAt := some now }
        else a).filter fun a => a.ceremonyId = ceremonyId) := by
  simp only [approvalCount, List.filter_filter, ← List.countP_eq_length_filter, List.countP_map]
  refine List.countP_mono_left fun a _ ha => ?_
  simp only [Function.comp]
  split <;> simp_all

theorem apply_grows {w : Statement} {db db' : Db} (h : postgres.apply w db = some db') :
    Grows db.hsm db'.hsm := by
  rcases (apply_frame h).hsm with ⟨st, -, hst⟩ | hsame
  · have hframe := HsmStatement.frame hst
    constructor
    · intro ceremonyId
      rcases hframe.approvals with ⟨a, email, -, hinsert⟩ | ⟨id, now, -, hupdate⟩ | hsame
      · simp only [approvalsOf, (Table.insert_eq_some.mp hinsert).2, List.filter_append,
          approvalCount_append]
        exact Nat.le_add_right _ _
      · simp only [approvalsOf, (Table.update_eq_some.mp hupdate).2]
        exact approvalCount_update _ _ _ _
      · rw [approvalsOf, approvalsOf, hsame]
    · intro c hc
      rcases hframe.ceremonies with ⟨c₀, _, _, -, hinsert⟩ | ⟨id, patch, -, hupdate⟩ | hsame
      · exact ⟨c, (Table.mem_insert hinsert).mpr (.inl hc), rfl, rfl⟩
      · refine ⟨if c.id = id then patch.apply c else c, ?_, ?_, ?_⟩
        · rw [(Table.update_eq_some.mp hupdate).2]
          exact List.mem_map_of_mem hc
        · split <;> rfl
        · split <;> rfl
      · exact ⟨c, hsame ▸ hc, rfl, rfl⟩
  · rw [hsame]
    exact Grows.refl _

theorem applyAll_grows {ws : List Statement} {db db' : Db}
    (h : postgres.applyAll ws db = some db') : Grows db.hsm db'.hsm :=
  postgres.applyAll_preserves (P := fun d => Grows db.hsm d.hsm)
    (fun _ _ _ _ hw hgrows => hgrows.trans (apply_grows hw)) h (Grows.refl _)

/-! ## What the sessions send -/

/-- The statement gives no approval, and a ceremony that it changes has its quorum. -/
def KeepsApprovals (t : HsmStore) : Statement → Prop
  | .hsm (.insertCeremony _) => False
  | .hsm (.insertApproval _) => False
  | .hsm (.updateApproval _ _) => False
  | .hsm (.updateCeremony id _) => (∃ c ∈ t.ceremonies.rows, c.id = id) ∧ QuorumMet t id
  | _ => True

/-- The statements of an open transaction: none, an approval with its audit entry, or those of
a completion. -/
inductive Held (t : HsmStore) : List Statement → Prop where
  | inserts (a : KeyCustodianApproval) (entry n) :
      Held t [.hsm (.insertApproval a), .insertAuditLogEntry entry n]
  | updates (id : Uuid) (now : ℕ) (entry n) :
      Held t [.hsm (.updateApproval id now), .insertAuditLogEntry entry n]
  | keeps (ws : List Statement) (h : ∀ w ∈ ws, KeepsApprovals t w) : Held t ws

theorem KeepsApprovals.later {t t' : HsmStore} {w : Statement} (h : KeepsApprovals t w)
    (hgrows : Grows t t') : KeepsApprovals t' w := by
  cases w with
  | hsm st =>
    cases st with
    | updateCeremony id patch =>
      obtain ⟨hex, hmet⟩ := h
      refine ⟨?_, hmet.later hex hgrows⟩
      obtain ⟨c, hc, rfl⟩ := hex
      obtain ⟨c', hc', hid, -⟩ := hgrows.ceremonies c hc
      exact ⟨c', hc', hid⟩
    | _ => exact h
  | _ => trivial

theorem Held.later {t t' : HsmStore} {ws : List Statement} (h : Held t ws)
    (hgrows : Grows t t') : Held t' ws := by
  cases h with
  | inserts a entry n => exact .inserts a entry n
  | updates id now entry n => exact .updates id now entry n
  | keeps _ h => exact .keeps ws fun w hw => (h w hw).later hgrows

/-- What a flush may send: it is the first of its transaction. -/
def SendsHeld (db : Db) (pending : List Statement) (_ : ℕ) (ws : List Statement) : Prop :=
  pending = [] ∧ Held db.hsm ws

def Grow (db db' : Db) : Prop := Grows db.hsm db'.hsm

section

variable {crypto : AuditCrypto} {db : Db}

theorem grow_refl (db : Db) : Grow db db := Grows.refl db.hsm

theorem grow_trans (db₁ db₂ db₃ : Db) (h : Grow db₁ db₂) (h' : Grow db₂ db₃) : Grow db₁ db₃ :=
  Grows.trans h h'

/-- Reading the relationships of a ceremony sends nothing. -/
theorem loadRelationships_guarantees {c : KeyCeremony}
    {post : LoadedCeremony → List Statement → Db → Prop} {pending : List Statement}
    (h : ∀ seen view key db', Grow db seen → Grow seen db' →
      postgres.applyAll pending seen = some view →
      post ⟨c, approvalsOf view.hsm c.id, key⟩ pending db') :
    Guarantees postgres Grow SendsHeld (loadRelationships c) post pending db := by
  refine Guarantees.select_bind fun seen view hseen hview => ?_
  refine Guarantees.select_bind fun seen' view' hseen' _ => ?_
  refine guarantees_found_bind fun key _ => Guarantees.return fun db' hdb' => ?_
  exact h seen view key db' hseen (grow_trans _ _ _ hseen' hdb') hview

theorem loadPendingCeremony_guarantees {ceremonyId : Uuid}
    {post : LoadedCeremony → List Statement → Db → Prop}
    (h : ∀ seen seen' c key db', Grow seen seen' → Grow seen' db' → c ∈ seen.hsm.ceremonies.rows →
      post ⟨c, approvalsOf seen'.hsm c.id, key⟩ [] db') :
    Guarantees postgres Grow SendsHeld (loadPendingCeremony ceremonyId) post [] db := by
  refine Guarantees.select_bind fun seen view _ hview => ?_
  cases hview
  refine guarantees_found_bind fun c hc => ?_
  refine Guarantees.bind grow_refl (loadRelationships_guarantees fun seen' view' key db' hseen'
    hdb' hview' => ?_)
  cases hview'
  refine guarantees_ensure_bind fun _ => Guarantees.return fun db₂ hdb₂ => ?_
  exact h seen seen' c key db₂ hseen' (grow_trans _ _ _ hdb' hdb₂)
    (Table.find?_eq_some.mp hc).1

theorem findPredecessor_guarantees {label : Option String}
    {post : Option MasterKey → List Statement → Db → Prop} {pending : List Statement}
    (h : ∀ predecessor db', Grow db db' → post predecessor pending db') :
    Guarantees postgres Grow SendsHeld (findPredecessor label) post pending db := by
  unfold findPredecessor
  split
  · exact Guarantees.return fun db' hdb' => h none db' hdb'
  · exact Guarantees.select fun _ view db' hseen _ hdb' => h _ db' (grow_trans _ _ _ hseen hdb')

/-- The commit and the response that end a request. -/
theorem finish_guarantees {c : KeyCeremony} {pending : List Statement} :
    Guarantees postgres Grow SendsHeld (do
      Request.commitTransaction
      loadRelationships c) (fun _ _ _ => True) pending db :=
  Guarantees.commitTransaction_bind fun _ _ _ _ =>
    loadRelationships_guarantees fun _ _ _ _ _ _ _ => trivial

theorem approveCeremony_guarantees (env : HsmEnv) (ceremonyId : Uuid) (custodianEmail : String) :
    Guarantees postgres Grow SendsHeld (approveCeremony crypto env ceremonyId custodianEmail)
      (fun _ _ _ => True) [] db := by
  refine Guarantees.bind grow_refl (loadPendingCeremony_guarantees fun _ seen c key db' _ _ _ => ?_)
  refine Guarantees.bind grow_refl ?_
  rw [recordApproval]
  split
  · exact Guarantees.return fun _ _ => finish_guarantees
  · refine Guarantees.bind grow_refl (appendEntryInTransaction_guarantees
      (fun _ _ _ d n _ _ _ _ => ⟨rfl, ?_⟩)
      fun _ _ _ => Guarantees.return fun _ _ => finish_guarantees)
    unfold giveApproval
    split
    · exact .inserts _ _ _
    · exact .updates _ _ _ _

theorem completeCeremony_guarantees (env : HsmEnv) (ceremonyId : Uuid) (actor : String) :
    Guarantees postgres Grow SendsHeld (completeCeremony crypto env ceremonyId actor)
      (fun _ _ _ => True) [] db := by
  refine Guarantees.bind grow_refl (loadPendingCeremony_guarantees
    fun seen seen' c key db₁ hgrows hdb₁ hc => ?_)
  refine guarantees_ensure_bind fun hquorum => ?_
  refine guarantees_found_bind fun expiresAt _ => ?_
  refine Guarantees.bind grow_refl (findPredecessor_guarantees fun predecessor db₂ hdb₂ => ?_)
  refine Guarantees.bind grow_refl (appendEntryInTransaction_guarantees
    (fun seen₃ _ _ db₃ n hseen₃ _ _ hdb₃ => ⟨rfl, ?_⟩) fun _ _ _ => finish_guarantees)
  have hmet : QuorumMet seen'.hsm c.id := by
    obtain ⟨c', hc', hid, hrequired⟩ := hgrows.ceremonies c hc
    intro d hd hdid
    obtain rfl : d = c' := seen'.hsm.ceremonies.eq_of_key_eq hd hc' (hdid.trans hid.symm)
    rw [hrequired]
    simpa [LoadedCeremony.quorumMet] using hquorum
  have hlater : Grows seen'.hsm db₃.hsm :=
    ((hdb₁.trans hdb₂).trans hseen₃).trans hdb₃
  obtain ⟨c', hc', hid, -⟩ := hgrows.ceremonies c hc
  have hceremony : KeepsApprovals seen'.hsm (.hsm (.updateCeremony c.id
      (c.diff (completedCeremony env.now c)))) := ⟨⟨c', hc', hid⟩, hmet⟩
  refine .keeps _ fun w hw => ?_
  simp only [List.mem_append, List.mem_flatMap, List.mem_singleton] at hw
  rcases hw with ((⟨k, -, hw⟩ | hw) | rfl) | rfl
  · unfold saveKey at hw
    split at hw
    · cases hw
    · rw [List.mem_singleton.mp hw]
      trivial
  · unfold saveCeremony at hw
    split at hw
    · cases hw
    · rw [List.mem_singleton.mp hw]
      exact hceremony.later hlater
  · trivial
  · trivial

/-! ## Runs -/

/-- The approvals of a ceremony carry different addresses. -/
def DistinctApprovals (t : HsmStore) : Prop :=
  ∀ id, ((approvalsOf t id).map KeyCustodianApproval.custodianEmail).Nodup

/-- What holds of the committed tables of a run from `t₀`: the approvals are distinct, and a
ceremony is complete by a quorum or from the start. -/
structure QuorumInv (t₀ t : HsmStore) : Prop where
  distinct : DistinctApprovals t
  quorum : ∀ c ∈ t.ceremonies.rows, c.status = .complete →
    (∃ c₀ ∈ t₀.ceremonies.rows, c₀.id = c.id ∧ c₀.status = .complete) ∨ QuorumMet t c.id

/-- Approvals that only grow keep a quorum. -/
theorem QuorumInv.of_approvals {t₀ t t' : HsmStore} (h : QuorumInv t₀ t) (hgrows : Grows t t')
    (hceremonies : t'.ceremonies = t.ceremonies) (hdistinct : DistinctApprovals t') :
    QuorumInv t₀ t' where
  distinct := hdistinct
  quorum c hc hcomplete := by
    rw [hceremonies] at hc
    exact (h.quorum c hc hcomplete).imp id fun hmet => hmet.later ⟨c, hc, rfl⟩ hgrows

theorem distinct_insert {t t' : HsmStore} {a : KeyCustodianApproval} (h : DistinctApprovals t)
    (hrows : t'.approvals.rows = t.approvals.rows ++ [a])
    (hnew : ∀ b ∈ approvalsOf t a.ceremonyId, b.custodianEmail ≠ a.custodianEmail) :
    DistinctApprovals t' := by
  intro id
  rw [approvalsOf_append hrows]
  split
  · next hid =>
    subst hid
    rw [List.map_append, List.nodup_append]
    refine ⟨h _, List.nodup_singleton _, fun e he e' he' => ?_⟩
    obtain ⟨b, hb, rfl⟩ := List.mem_map.mp he
    rw [List.mem_singleton.mp he']
    exact hnew b hb
  · rw [List.append_nil]
    exact h id

theorem distinct_update {t t' : HsmStore} {id : Uuid} {now : ℕ} (h : DistinctApprovals t)
    (hrows : t'.approvals.rows = t.approvals.rows.map fun a =>
      if a.id = id then { a with approvedAt := some now } else a) : DistinctApprovals t' := by
  intro ceremonyId
  have hsame : (approvalsOf t' ceremonyId).map KeyCustodianApproval.custodianEmail =
      (approvalsOf t ceremonyId).map KeyCustodianApproval.custodianEmail := by
    rw [approvalsOf, hrows, List.filter_map, List.map_map]
    have hfilter : ((fun a : KeyCustodianApproval => decide (a.ceremonyId = ceremonyId)) ∘
        fun a => if a.id = id then { a with approvedAt := some now } else a) =
          fun a => decide (a.ceremonyId = ceremonyId) := by
      funext a
      simp only [Function.comp]
      split <;> rfl
    rw [hfilter]
    refine List.map_congr_left fun a _ => ?_
    simp only [Function.comp]
    split <;> rfl
  rw [hsame]
  exact h ceremonyId

/-- A statement that gives no approval changes the status of a ceremony only with its quorum. -/
theorem apply_keeps {t : HsmStore} {w : Statement} {db db' : Db} (h : KeepsApprovals t w)
    (happly : postgres.apply w db = some db') :
    db'.hsm.approvals = db.hsm.approvals ∧
      ∀ c' ∈ db'.hsm.ceremonies.rows, ∃ c ∈ db.hsm.ceremonies.rows, c.id = c'.id ∧
        (c.status = c'.status ∨ QuorumMet t c.id) := by
  rcases (apply_frame happly).hsm with ⟨st, rfl, hst⟩ | hsame
  · have hframe := HsmStatement.frame hst
    constructor
    · rcases hframe.approvals with ⟨a, _, rfl, -⟩ | ⟨id, now, rfl, -⟩ | hsame
      · nomatch h
      · nomatch h
      · exact hsame
    · intro c' hc'
      rcases hframe.ceremonies with ⟨c, _, _, rfl, -⟩ | ⟨id, patch, rfl, hupdate⟩ | hsame
      · nomatch h
      · rw [(Table.update_eq_some.mp hupdate).2] at hc'
        obtain ⟨c, hc, rfl⟩ := List.mem_map.mp hc'
        refine ⟨c, hc, ?_⟩
        split
        · next hid => exact ⟨rfl, .inr (hid ▸ h.2)⟩
        · exact ⟨rfl, .inl rfl⟩
      · exact ⟨c', hsame ▸ hc', rfl, .inl rfl⟩
  · rw [hsame]
    exact ⟨rfl, fun c hc => ⟨c, hc, rfl, .inl rfl⟩⟩

theorem applyAll_keeps {t : HsmStore} {ws : List Statement} {db db' : Db}
    (h : ∀ w ∈ ws, KeepsApprovals t w) (happly : postgres.applyAll ws db = some db') :
    db'.hsm.approvals = db.hsm.approvals ∧
      ∀ c' ∈ db'.hsm.ceremonies.rows, ∃ c ∈ db.hsm.ceremonies.rows, c.id = c'.id ∧
        (c.status = c'.status ∨ QuorumMet t c.id) := by
  induction ws generalizing db with
  | nil =>
    cases happly
    exact ⟨rfl, fun c hc => ⟨c, hc, rfl, .inl rfl⟩⟩
  | cons w ws ih =>
    obtain ⟨mid, hw, hws⟩ := Option.bind_eq_some_iff.mp happly
    obtain ⟨happrovals, hceremonies⟩ := apply_keeps (h w List.mem_cons_self) hw
    obtain ⟨happrovals', hceremonies'⟩ := ih (fun v hv => h v (List.mem_cons_of_mem _ hv)) hws
    refine ⟨happrovals'.trans happrovals, fun c' hc' => ?_⟩
    obtain ⟨c, hc, hid, hstatus⟩ := hceremonies' c' hc'
    obtain ⟨d, hd, hdid, hdstatus⟩ := hceremonies c hc
    refine ⟨d, hd, hdid.trans hid, ?_⟩
    rcases hdstatus with hdstatus | hmet
    · rw [hdstatus, hdid]
      exact hstatus
    · exact .inr hmet

/-- The statements of an approval change the approvals, and its audit entry nothing here. -/
theorem applyAll_approval {st : HsmStatement} {entry : AuditLogTable.NewAuditLogEntry} {n : ℕ}
    {db view : Db}
    (h : postgres.applyAll [.hsm st, .insertAuditLogEntry entry n] db = some view) :
    st.apply db.hsm = some view.hsm := by
  obtain ⟨mid, hst, hrest⟩ := Option.bind_eq_some_iff.mp h
  obtain ⟨view', hentry, hnil⟩ := Option.bind_eq_some_iff.mp hrest
  cases hnil
  obtain ⟨t, ht, rfl⟩ := apply_hsm.mp hst
  obtain ⟨row, -, -, rfl⟩ := apply_insertAuditLogEntry.mp hentry
  exact ht

/-- The step lemma: a commit keeps the invariant. -/
theorem quorumInv_commit {t₀ : HsmStore} {ws : List Statement} {view : Db}
    (h : QuorumInv t₀ db.hsm) (held : Held db.hsm ws) (single : NoSecondApproval db ws)
    (happly : postgres.applyAll ws db = some view) : QuorumInv t₀ view.hsm := by
  have hgrows := applyAll_grows happly
  cases held with
  | inserts a entry n =>
    have hst := applyAll_approval happly
    generalize view.hsm = t at *
    obtain ⟨email, approvals, hemail, hinsert, rfl⟩ := HsmStore.insertApproval_eq_some hst
    exact h.of_approvals hgrows rfl (distinct_insert h.distinct (Table.insert_eq_some.mp hinsert).2
      (single a email List.mem_cons_self hemail))
  | updates id now entry n =>
    have hst := applyAll_approval happly
    generalize view.hsm = t at *
    obtain ⟨approvals, hupdate, rfl⟩ := HsmStore.updateApproval_eq_some hst
    exact h.of_approvals hgrows rfl
      (distinct_update h.distinct (Table.update_eq_some.mp hupdate).2)
  | keeps _ hkeeps =>
    obtain ⟨happrovals, hceremonies⟩ := applyAll_keeps hkeeps happly
    refine ⟨fun id => ?_, fun c' hc' hcomplete => ?_⟩
    · rw [approvalsOf_eq happrovals]
      exact h.distinct id
    · obtain ⟨c, hc, hid, hstatus⟩ := hceremonies c' hc'
      rw [← hid]
      rcases hstatus with hstatus | hmet
      · exact (h.quorum c hc (hstatus.trans hcomplete)).imp id fun hmet =>
          hmet.later ⟨c, hc, rfl⟩ hgrows
      · exact .inr (hmet.later ⟨c, hc, rfl⟩ hgrows)

/-- As many different custodians as the ceremony requires have approved it. -/
def DistinctQuorum (t : HsmStore) (c : KeyCeremony) : Prop :=
  ∃ emails : List String, emails.Nodup ∧ c.requiredApprovals ≤ emails.length ∧
    ∀ e ∈ emails, ∃ a ∈ approvalsOf t c.id, a.custodianEmail = e ∧ a.approvedAt.isSome

theorem distinctQuorum_of_met {t : HsmStore} (h : DistinctApprovals t) {c : KeyCeremony}
    (hc : c ∈ t.ceremonies.rows) (hmet : QuorumMet t c.id) : DistinctQuorum t c := by
  refine ⟨((approvalsOf t c.id).filter fun a => a.approvedAt.isSome).map
    KeyCustodianApproval.custodianEmail, (h c.id).sublist (List.filter_sublist.map _), ?_, ?_⟩
  · rw [List.length_map]
    exact hmet c hc rfl
  · intro e he
    obtain ⟨a, ha, rfl⟩ := List.mem_map.mp he
    obtain ⟨hmem, happroved⟩ := List.mem_filter.mp ha
    exact ⟨a, hmem, rfl, happroved⟩

theorem request_guarantees (r : QuorumRequest) (db : Db) :
    Guarantees postgres Grow SendsHeld (r.request crypto) (fun _ _ _ => True) [] db := by
  cases r with
  | approveCeremony env id email =>
    refine Guarantees.bind grow_refl (Guarantees.mono (fun _ _ _ _ h => h)
      (fun _ _ _ _ => ?_) (approveCeremony_guarantees env id email))
    exact Guarantees.return fun _ _ => trivial
  | completeCeremony env id actor =>
    refine Guarantees.bind grow_refl (Guarantees.mono (fun _ _ _ _ h => h)
      (fun _ _ _ _ => ?_) (completeCeremony_guarantees env id actor))
    exact Guarantees.return fun _ _ => trivial

/-- In every interleaving in which no commit installs a second approval of a custodian, a
ceremony becomes complete with as many different custodians as it requires. -/
theorem quorum_of_distinct_custodians (hdistinct : DistinctApprovals db.hsm) {n : ℕ}
    (rs : List QuorumRequest) {σ : Server Db Statement ServiceError Unit}
    (run : Server.Reaches postgres NoSecondApproval (start db n (rs.map (·.request crypto))) σ)
    {c : KeyCeremony} (hc : c ∈ σ.committed.hsm.ceremonies.rows) (hcomplete : c.status = .complete)
    (hnew : ∀ c₀ ∈ db.hsm.ceremonies.rows, c₀.id = c.id → c₀.status ≠ .complete) :
    DistinctQuorum σ.committed.hsm c := by
  have hstart : QuorumInv db.hsm db.hsm :=
    ⟨hdistinct, fun c hc hcomplete => .inl ⟨c, hc, rfl, hcomplete⟩⟩
  have hpromise : ∀ p ∈ rs.map (·.request crypto),
      Guarantees postgres Grow SendsHeld p (fun _ _ _ => True) [] db := by
    intro p hp
    obtain ⟨r, -, rfl⟩ := List.mem_map.mp hp
    exact request_guarantees r db
  obtain ⟨hinv, -, -, -⟩ := Server.Reaches.preserves (fun d => QuorumInv db.hsm d.hsm)
    (fun d ws => Held d.hsm ws) grow_refl grow_trans (fun _ => .keeps [] fun _ h => nomatch h)
    (fun _ _ _ hgrow held => held.later hgrow)
    (fun _ _ pending ws _ hsends => by
      obtain ⟨rfl, held⟩ := hsends
      exact held)
    (fun _ _ _ hinv held single happly =>
      ⟨quorumInv_commit hinv held single happly, applyAll_grows happly⟩) hstart hpromise run
  rcases hinv.quorum c hc hcomplete with ⟨c₀, hc₀, hid, hcomplete₀⟩ | hmet
  · exact absurd hcomplete₀ (hnew c₀ hc₀ hid)
  · exact distinctQuorum_of_met hinv.distinct hc hmet

end

/-! ## Two sessions of one custodian -/

/-- A pending key with an open ceremony of two custodians. -/
def openCeremony : HsmStore where
  slots := .empty
  keys := ⟨[⟨2, "nexus-master-v2", none, "AES-256", .pending, 180, none, none, none, none, 0, 0⟩],
    by decide⟩
  ceremonies := ⟨[⟨3, "CER-20240101-00000003", 2, none, 2, .pending, none, none⟩], by decide⟩
  approvals := .empty
  operations := .empty
  attestationRuns := .empty

def sampleDb : Db := { emptyDb with hsm := openCeremony }

/-- Two approvals and a completion. -/
def sampleRequests (first second : String) : List QuorumRequest :=
  [.approveCeremony (sampleHsmEnv 0) 3 first, .approveCeremony (sampleHsmEnv 1) 3 second,
    .completeCeremony (sampleHsmEnv 2) 3 "admin@example.com"]

/-- Both approvals have read the ceremony before one of them writes, and the completion comes
last. -/
def interleaved : List Action :=
  List.replicate 3 (.run 0) ++ List.replicate 3 (.run 1) ++ List.replicate 4 (.run 0) ++
    List.replicate 4 (.run 1) ++ List.replicate 7 (.run 2)

def noSecondApproval (committed : Db) (ws : List Statement) : Bool :=
  ws.all fun
    | .hsm (.insertApproval a) => (approvalsOf committed.hsm a.ceremonyId).all fun b =>
      some b.custodianEmail != varchar 120 a.custodianEmail
    | _ => true

theorem noSecondApproval_sound (committed : Db) (ws : List Statement)
    (h : noSecondApproval committed ws = true) : NoSecondApproval committed ws := by
  intro a email ha hemail b hb heq
  have hall := List.all_eq_true.mp (List.all_eq_true.mp h _ ha) b hb
  simp [hemail, heq] at hall

theorem sampleDb_distinct : DistinctApprovals sampleDb.hsm := fun _ => List.nodup_nil

theorem quorum_of_distinct_custodians_sample :
    ∃ σ, Server.run postgres noSecondApproval (start sampleDb 1
        ((sampleRequests "alice@example.com" "bob@example.com").map (·.request sha256Crypto)))
        interleaved = some σ ∧
      ∃ c ∈ σ.committed.hsm.ceremonies.rows, c.status = .complete ∧
        DistinctQuorum σ.committed.hsm c := by
  have hrun : ((Server.run postgres noSecondApproval (start sampleDb 1
      ((sampleRequests "alice@example.com" "bob@example.com").map (·.request sha256Crypto)))
      interleaved).map fun σ => σ.committed.hsm.ceremonies.rows.any fun c =>
        c.status == .complete) = some true := by decide +kernel
  obtain ⟨σ, hσ, hany⟩ := Option.map_eq_some_iff.mp hrun
  obtain ⟨c, hc, hcomplete⟩ := List.any_eq_true.mp hany
  rw [beq_iff_eq] at hcomplete
  refine ⟨σ, hσ, c, hc, hcomplete, ?_⟩
  refine quorum_of_distinct_custodians sampleDb_distinct _
    (Server.Reaches.of_run noSecondApproval_sound .refl hσ) hc hcomplete fun c₀ hc₀ _ => ?_
  rw [List.mem_singleton.mp hc₀]
  decide

/-- Approvals of one address are no quorum of two. -/
theorem not_distinctQuorum {t : HsmStore} {c : KeyCeremony} (email : String)
    (hrequired : 1 < c.requiredApprovals)
    (hsame : ∀ a ∈ t.approvals.rows, a.custodianEmail = email) : ¬ DistinctQuorum t c := by
  rintro ⟨emails, hnodup, hcount, hemails⟩
  have hone : emails.length ≤ [email].length := by
    refine (List.subperm_of_subset hnodup fun e he => ?_).length_le
    obtain ⟨a, ha, rfl, -⟩ := hemails e he
    exact hsame a (List.mem_of_mem_filter ha) ▸ List.mem_cons_self
  rw [List.length_singleton] at hone
  omega

/-- Two sessions of one custodian approve at once, and the ceremony is completed with them. -/
theorem one_custodian_twice :
    ∃ σ, Server.Reaches postgres (fun _ _ => True) (start sampleDb 1
        ((sampleRequests "alice@example.com" "alice@example.com").map
          (·.request sha256Crypto))) σ ∧
      DistinctApprovals sampleDb.hsm ∧
      ∃ c ∈ σ.committed.hsm.ceremonies.rows, c.status = .complete ∧
        (∀ c₀ ∈ sampleDb.hsm.ceremonies.rows, c₀.id = c.id → c₀.status ≠ .complete) ∧
        ¬ DistinctQuorum σ.committed.hsm c := by
  have hrun : ((Server.run postgres (fun _ _ => true) (start sampleDb 1
      ((sampleRequests "alice@example.com" "alice@example.com").map (·.request sha256Crypto)))
      interleaved).map fun σ =>
        (σ.committed.hsm.ceremonies.rows.any fun c =>
          c.status == .complete && c.requiredApprovals == 2) &&
        σ.committed.hsm.approvals.rows.all fun a => a.custodianEmail == "alice@example.com") =
      some true := by decide +kernel
  obtain ⟨σ, hσ, hfacts⟩ := Option.map_eq_some_iff.mp hrun
  rw [Bool.and_eq_true] at hfacts
  obtain ⟨hany, hemails⟩ := hfacts
  obtain ⟨c, hc, hcomplete⟩ := List.any_eq_true.mp hany
  simp only [Bool.and_eq_true, beq_iff_eq] at hcomplete
  refine ⟨σ, Server.Reaches.of_run (fun _ _ _ => trivial) .refl hσ, sampleDb_distinct, c, hc,
    hcomplete.1, fun c₀ hc₀ _ => ?_, ?_⟩
  · rw [List.mem_singleton.mp hc₀]
    decide
  · refine not_distinctQuorum "alice@example.com" (hcomplete.2 ▸ Nat.lt_succ_self 1) fun a ha => ?_
    exact beq_iff_eq.mp (List.all_eq_true.mp hemails a ha)

end NexusEngine.HsmQuorumRaces
