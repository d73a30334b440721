import NexusEngine.SafeServices
import NexusEngine.ApiRequests
import NexusEngine.TenancyScreens

/-!
# Provisioning under interference

Two sessions that advance one job read the same steps and do the same one, and a session that comes
late writes its older steps over newer ones. Whatever the interleaving, the steps that are done are
the first ones, and the current step is the one after them: the screen never shows a gap.
-/

namespace NexusEngine.ProvisioningRaces

open TransactionalRequests ReadCommittedSessions StoredColumns KeyedTables TenancyTables Database
  TenancyService TenancyLifecycle TenancyScreens AuditedOperations SafeServices
open ApiRequests (getTenant_readsOnly)

/-! ## Stages -/

/-- The first `k` steps of the job are done. -/
def AtStage (k : ℕ) (j : TenantProvisioningJob) : Prop :=
  j.completedSteps = provisioningSteps.take k ∧ j.currentStep = provisioningSteps[k]?

/-- Every job is at some stage. -/
def Staged (db : Db) : Prop := ∀ j ∈ db.tenancy.provisioningJobs.rows, ∃ k, AtStage k j

theorem provisioningSteps_nodup : provisioningSteps.Nodup := by decide

/-- What remains after the first steps are the other ones. -/
theorem remainingSteps_take (k : ℕ) :
    remainingSteps (provisioningSteps.take k) = provisioningSteps.drop k := by
  have hsplit := List.take_append_drop k provisioningSteps
  have hnodup := provisioningSteps_nodup
  rw [← hsplit, List.nodup_append] at hnodup
  have hdone : (provisioningSteps.take k).filter (fun s => s ∉ provisioningSteps.take k) = [] := by
    apply List.filter_eq_nil_iff.mpr
    intro s hs
    simp [hs]
  have hopen : (provisioningSteps.drop k).filter (fun s => s ∉ provisioningSteps.take k) =
      provisioningSteps.drop k := by
    apply List.filter_eq_self.mpr
    intro s hs
    have hne : s ∉ provisioningSteps.take k := fun hs' => hnodup.2.2 s hs' s hs rfl
    simpa using hne
  calc remainingSteps (provisioningSteps.take k)
      = (provisioningSteps.take k ++ provisioningSteps.drop k).filter
          fun s => s ∉ provisioningSteps.take k := by rw [remainingSteps, hsplit]
    _ = provisioningSteps.drop k := by rw [List.filter_append, hdone, hopen, List.nil_append]

theorem head?_remainingSteps (k : ℕ) :
    (remainingSteps (provisioningSteps.take k)).head? = provisioningSteps[k]? := by
  rw [remainingSteps_take, List.head?_drop]

theorem nextStep {k : ℕ} {step : String} {rest : List String}
    (h : remainingSteps (provisioningSteps.take k) = step :: rest) :
    k < provisioningSteps.length ∧ provisioningSteps[k]? = some step ∧
      provisioningSteps.take (k + 1) = provisioningSteps.take k ++ [step] := by
  have hstep : provisioningSteps[k]? = some step := by
    rw [← head?_remainingSteps, h, List.head?_cons]
  have hlt : k < provisioningSteps.length := (List.getElem?_eq_some_iff.mp hstep).1
  refine ⟨hlt, hstep, ?_⟩
  rw [List.take_add_one, hstep, Option.toList_some]

/-- The job that is written after a step is at the next stage. -/
theorem advancedJob_atStage {k : ℕ} {job : TenantProvisioningJob} {step : String}
    {rest : List String} (h : AtStage k job)
    (hremaining : remainingSteps job.completedSteps = step :: rest) :
    AtStage (k + 1) (advancedJob job step) := by
  rw [h.1] at hremaining
  have htake := (nextStep hremaining).2.2
  constructor
  · rw [advancedJob, h.1, htake]
  · rw [advancedJob, h.1, ← htake]
    exact head?_remainingSteps (k + 1)

/-! ## Statements -/

/-- The statement inserts a job at a stage, or writes all of a stage, or leaves the jobs to be. -/
def WritesStages : Statement → Prop
  | .tenancy (.insertProvisioningJob j) => ∃ k, AtStage k j
  | .tenancy (.updateProvisioningJob _ patch) => ∃ k,
      patch.completedSteps = some (provisioningSteps.take k) ∧
        patch.currentStep = some provisioningSteps[k]?
  | _ => True

/-- The statement does not write the jobs, except that it may delete them. -/
def KeepsJobs : Statement → Prop
  | .tenancy (.insertProvisioningJob _) => False
  | .tenancy (.updateProvisioningJob _ _) => False
  | _ => True

theorem KeepsJobs.writesStages {w : Statement} (h : KeepsJobs w) : WritesStages w := by
  cases w with
  | tenancy statement =>
    cases statement with
    | insertProvisioningJob j => exact h.elim
    | updateProvisioningJob id patch => exact h.elim
    | _ => trivial
  | _ => trivial

/-- The names of the steps fit their column. -/
theorem stored_step (k : ℕ) :
    nullable (varchar 60) provisioningSteps[k]? = some provisioningSteps[k]? := by
  have hfits : ∀ s ∈ provisioningSteps, varchar 60 s = some s := by decide
  cases hstep : provisioningSteps[k]? with
  | none => rfl
  | some s => simp [nullable, hfits s (List.mem_of_getElem? hstep)]

theorem insertProvisioningJob_staged {s s' : TenancyStore} {j : TenantProvisioningJob} {k : ℕ}
    (h : s.insertProvisioningJob j = some s') (hj : AtStage k j)
    (hstaged : ∀ j ∈ s.provisioningJobs.rows, ∃ k, AtStage k j) :
    ∀ j ∈ s'.provisioningJobs.rows, ∃ k, AtStage k j := by
  simp only [TenancyStore.insertProvisioningJob, hj.2, stored_step, Option.bind_eq_bind,
    Option.bind_some, Option.ite_none_right_eq_some, Option.bind_eq_some_iff] at h
  obtain ⟨-, jobs, hinsert, hs'⟩ := h
  cases hs'
  intro row hrow
  rcases (Table.mem_insert hinsert).mp hrow with hrow | rfl
  · exact hstaged row hrow
  · exact ⟨k, hj.1, rfl⟩

theorem updateProvisioningJob_staged {s s' : TenancyStore} {id : Uuid}
    {patch : TenantProvisioningJobPatch} {k : ℕ}
    (h : s.updateProvisioningJob id patch = some s')
    (hsteps : patch.completedSteps = some (provisioningSteps.take k))
    (hcurrent : patch.currentStep = some provisioningSteps[k]?)
    (hstaged : ∀ j ∈ s.provisioningJobs.rows, ∃ k, AtStage k j) :
    ∀ j ∈ s'.provisioningJobs.rows, ∃ k, AtStage k j := by
  have hstored : nullable (nullable (varchar 60)) (some provisioningSteps[k]?) =
      some (some provisioningSteps[k]?) := congrArg (Option.map some) (stored_step k)
  simp only [TenancyStore.updateProvisioningJob, hcurrent, hstored, Option.bind_eq_bind,
    Option.bind_some, Option.bind_eq_some_iff] at h
  obtain ⟨jobs, hupdate, hs'⟩ := h
  cases hs'
  intro row hrow
  rw [(Table.update_eq_some.mp hupdate).2] at hrow
  obtain ⟨j, hj, rfl⟩ := List.mem_map.mp hrow
  by_cases hid : j.id = id
  · exact ⟨k, by simp [AtStage, hid, hsteps]⟩
  · simpa [hid] using hstaged j hj

/-- The step lemma of the statements. -/
theorem apply_staged {w : Statement} {db db' : Db} (hw : WritesStages w)
    (h : postgres.apply w db = some db') (hstaged : Staged db) : Staged db' := by
  cases w with
  | tenancy statement =>
    obtain ⟨tenancy, hst, rfl⟩ := apply_tenancy.mp h
    cases statement with
    | insertProvisioningJob j =>
      obtain ⟨k, hj⟩ := hw
      exact insertProvisioningJob_staged hst hj hstaged
    | updateProvisioningJob id patch =>
      obtain ⟨k, hsteps, hcurrent⟩ := hw
      exact updateProvisioningJob_staged hst hsteps hcurrent hstaged
    | insertTenant t =>
      have hsame := (insertTenant_inserts hst).choose_spec.2.2.1
      intro j hj
      exact hstaged j (hsame ▸ hj)
    | updateTenant id patch =>
      obtain ⟨_, -, hst⟩ := Option.bind_eq_some_iff.mp hst
      obtain ⟨_, -, hst⟩ := Option.bind_eq_some_iff.mp hst
      cases hst
      exact hstaged
    | deleteProvisioningJob id =>
      cases hst
      intro j hj
      exact hstaged j (rows_delete_subset _ _ hj)
    | deleteMembership id =>
      cases hst
      exact hstaged
    | deleteSchemaValidation id =>
      cases hst
      exact hstaged
    | deleteBackupSnapshot id =>
      cases hst
      exact hstaged
  | deleteTenant id =>
    obtain ⟨-, rfl⟩ := apply_deleteTenant.mp h
    intro j hj
    exact hstaged j (List.mem_of_mem_filter hj)
  | insertAuditLogEntry entry n =>
    obtain ⟨_, -, -, rfl⟩ := apply_insertAuditLogEntry.mp h
    exact hstaged
  | hsm statement =>
    obtain ⟨_, -, rfl⟩ := apply_hsm.mp h
    exact hstaged
  | configuration statement =>
    obtain ⟨_, -, rfl⟩ := apply_configuration.mp h
    exact hstaged
  | parameter statement =>
    obtain ⟨_, -, rfl⟩ := apply_parameter.mp h
    exact hstaged
  | account statement =>
    obtain ⟨_, -, rfl⟩ := apply_account.mp h
    exact hstaged
  | anomaly statement =>
    obtain ⟨_, -, rfl⟩ := apply_anomaly.mp h
    exact hstaged
  | rbac statement =>
    obtain ⟨_, -, rfl⟩ := apply_rbac.mp h
    exact hstaged

/-! ## Requests -/

/-- A request to the service of tenants, or one that does not write the jobs. -/
inductive ProvisioningRequest where
  | createTenant (env : TenancyEnv) (payload : TenantCreate)
  | updateTenant (tenantId : Uuid) (payload : TenantUpdate)
  | setTenantStatus (tenantId : Uuid) (newStatus : TenantStatus)
  | advanceProvisioningJob (jobId : Uuid)
  | deleteTenant (tenantId : Uuid)
  | other (p : Service Unit) (keepsJobs : p.Sends KeepsJobs)

def ProvisioningRequest.request : ProvisioningRequest → Service Unit
  | createTenant env payload => do
    let _ ← TenancyService.createTenant env payload
    return ()
  | updateTenant tenantId payload => do
    let _ ← TenancyService.updateTenant tenantId payload
    return ()
  | setTenantStatus tenantId newStatus => do
    let _ ← TenancyService.setTenantStatus tenantId newStatus
    return ()
  | advanceProvisioningJob jobId => do
    let _ ← TenancyService.advanceProvisioningJob jobId
    return ()
  | deleteTenant tenantId => TenancyService.deleteTenant tenantId
  | other p _ => p

theorem tenantStatements_keepsJobs {tenantId : Uuid} {patch : TenantPatch} {w : Statement}
    (h : w ∈ tenantStatements tenantId patch) : KeepsJobs w := by
  unfold tenantStatements at h
  split at h
  · cases h
  · cases List.mem_singleton.mp h
    trivial

theorem saveTenant_sends (tenantId : Uuid) (patch : TenantPatch) :
    (saveTenant tenantId patch).Sends WritesStages := by
  apply Request.Sends.bind
  · exact Request.sends_send fun _ w hw => (tenantStatements_keepsJobs hw).writesStages
  intro _
  apply Request.sends_commit.bind
  intro _
  exact ((Request.readsOnly_select _).bind fun row => found_readsOnly row _).sends

theorem createTenant_sends (env : TenancyEnv) (payload : TenantCreate) :
    (createTenant env payload).Sends WritesStages := by
  apply (Request.sends_select _).bind
  intro duplicate
  apply (ensure_readsOnly _ _).sends.bind
  intro _
  apply Request.Sends.bind
  · apply Request.sends_send
    intro _ w hw
    cases List.mem_singleton.mp hw
    trivial
  intro _
  apply Request.Sends.bind
  · apply Request.sends_send
    intro _ w hw
    cases List.mem_singleton.mp hw
    exact ⟨0, rfl, rfl⟩
  intro _
  apply Request.sends_commit.bind
  intro _
  exact ((Request.readsOnly_select _).bind fun row => found_readsOnly row _).sends

theorem deleteStatements_keepsJobs {s : TenancyStore} {tenantId : Uuid} {w : Statement}
    (h : w ∈ deleteStatements s tenantId) : KeepsJobs w := by
  simp only [deleteStatements, List.mem_append, List.mem_map, List.mem_singleton] at h
  rcases h with (((⟨_, -, rfl⟩ | ⟨_, -, rfl⟩) | ⟨_, -, rfl⟩) | ⟨_, -, rfl⟩) | rfl <;> trivial

/-- The statements that advance a job that was read at a stage. -/
theorem advance_writesStages {k : ℕ} {job : TenantProvisioningJob} {step : String}
    {rest : List String} {tenant : Option Tenant} (h : AtStage k job)
    (hremaining : remainingSteps job.completedSteps = step :: rest) {w : Statement}
    (hw : w ∈ advancedTenant (advancedJob job step) tenant ++
      [.tenancy (.updateProvisioningJob job.id (job.diff (advancedJob job step)))]) :
    WritesStages w := by
  rcases List.mem_append.mp hw with hw | hw
  · apply KeepsJobs.writesStages
    unfold advancedTenant at hw
    split at hw
    · cases hw
    · split at hw
      · exact tenantStatements_keepsJobs hw
      · cases hw
  · cases List.mem_singleton.mp hw
    have hnext := advancedJob_atStage h hremaining
    rw [h.1] at hremaining
    obtain ⟨hlt, hstep, htake⟩ := nextStep hremaining
    refine ⟨k + 1, ?_, ?_⟩
    · -- the list of steps gets longer, so that it is written
      have hlonger : job.completedSteps ≠ provisioningSteps.take (k + 1) := by
        rw [h.1, htake]
        simp
      simp [TenantProvisioningJob.diff, changed, hlonger, hnext.1]
    · have hmoves : job.currentStep ≠ provisioningSteps[k + 1]? := by
        rw [h.2]
        intro heq
        have hsame := (List.getElem?_inj hlt provisioningSteps_nodup).mp heq
        omega
      simp [TenantProvisioningJob.diff, changed, hmoves, hnext.2]

theorem staged_of_sends {α : Type} {p : Service α} (h : p.Sends WritesStages) :
    Safe postgres (fun _ _ => True) Staged (fun _ => True) p fun _ _ => True :=
  Safe.of_sends growth_true stable_true h fun _ _ _ => apply_staged

theorem advanceProvisioningJob_staged (jobId : Uuid) :
    Safe postgres (fun _ _ => True) Staged (fun _ => True) (advanceProvisioningJob jobId)
      fun _ _ => True := by
  apply (Safe.select growth_true _).bind growth_true
  intro row
  apply (safe_found growth_true).bind growth_true
  intro job
  -- the job that was read was at a stage, whatever the others make of it
  have hknown : Stable (fun _ _ => True) fun _ : Db => ∃ k, AtStage k job := fun _ _ _ h => h
  apply Safe.mono (K := fun _ => ∃ k, AtStage k job) _ _ fun _ _ h => h
  · apply (Safe.of_readsOnly growth_true hknown (Request.readsOnly_select _)).bind growth_true
    intro tenant
    split
    · exact Safe.done growth_true fun _ _ => trivial
    · rename_i step rest hremaining
      apply (Safe.send growth_true hknown _).bind growth_true
      · intro _
        apply (Safe.commit growth_true hknown).bind growth_true
        intro _
        exact Safe.done growth_true fun _ _ => trivial
      · intro mid after _ hread hstaged happly
        obtain ⟨k, hstage⟩ := hread
        exact postgres.applyAll_preserves (fun w hw _ _ =>
          apply_staged (advance_writesStages hstage hremaining hw)) happly hstaged
  · intro db hread
    obtain ⟨⟨view, hstaged, -, -, hview⟩, rfl⟩ := hread
    exact hstaged job (Table.find?_eq_some.mp hview).1

theorem request_staged (r : ProvisioningRequest) :
    Safe postgres (fun _ _ => True) Staged (fun _ => True) r.request fun _ _ => True := by
  cases r with
  | createTenant env payload => exact staged_of_sends (createTenant_sends env payload).answer
  | updateTenant tenantId payload =>
    apply staged_of_sends
    exact ((getTenant_readsOnly tenantId).sends.bind fun tenant => saveTenant_sends _ _).answer
  | setTenantStatus tenantId newStatus =>
    apply staged_of_sends
    exact ((getTenant_readsOnly tenantId).sends.bind fun tenant => saveTenant_sends _ _).answer
  | advanceProvisioningJob jobId =>
    exact safe_answer growth_true (advanceProvisioningJob_staged jobId)
  | deleteTenant tenantId =>
    apply staged_of_sends
    apply (getTenant_readsOnly tenantId).sends.bind
    -- the statements are those of the rows that were read
    intro tenant db
    apply (Request.sends_send fun _ w hw => (deleteStatements_keepsJobs hw).writesStages).bind
    intro _
    exact Request.sends_commit
  | other p keepsJobs => exact staged_of_sends (keepsJobs.mono fun _ => KeepsJobs.writesStages)

/-! ## The screen -/

/-- The statuses of the steps at a stage: the steps that are done, the current one, and the rest. -/
def stageStatuses (k : ℕ) : List String :=
  (List.replicate k "done" ++
    "in_progress" :: List.replicate provisioningSteps.length "pending").take
    provisioningSteps.length

section

variable {job : TenantProvisioningJob} {reached : Bool}

theorem stepReads_done {steps later : List String} (h : ∀ s ∈ steps, s ∈ job.completedSteps) :
    (stepReads job reached (steps ++ later)).map ProvisioningStepRead.status =
      List.replicate steps.length "done" ++
        (stepReads job reached later).map ProvisioningStepRead.status := by
  induction steps with
  | nil => rfl
  | cons s steps ih =>
    have hs := h s List.mem_cons_self
    have hrest := ih fun s' hs' => h s' (List.mem_cons_of_mem _ hs')
    simp [stepReads, hs, hrest, List.replicate_succ]

theorem stepReads_pending {steps : List String} (h : ∀ s ∈ steps, s ∉ job.completedSteps) :
    (stepReads job true steps).map ProvisioningStepRead.status =
      List.replicate steps.length "pending" := by
  induction steps with
  | nil => rfl
  | cons s steps ih =>
    have hs := h s List.mem_cons_self
    have hrest := ih fun s' hs' => h s' (List.mem_cons_of_mem _ hs')
    simp [stepReads, hs, hrest, List.replicate_succ]

/-- What the screen shows of a job at a stage. -/
theorem AtStage.shown {k : ℕ} (h : AtStage k job) (hk : k ≤ provisioningSteps.length) :
    (stepReads job false provisioningSteps).map ProvisioningStepRead.status = stageStatuses k := by
  have hsplit := List.take_append_drop k provisioningSteps
  have hnodup := provisioningSteps_nodup
  rw [← hsplit, List.nodup_append] at hnodup
  have hopen : ∀ s ∈ provisioningSteps.drop k, s ∉ job.completedSteps := by
    intro s hs hs'
    rw [h.1] at hs'
    exact hnodup.2.2 s hs' s hs rfl
  have hfirst : ∀ s ∈ provisioningSteps.take k, s ∈ job.completedSteps := by
    intro s hs
    rwa [h.1]
  have hdone : (stepReads job false provisioningSteps).map ProvisioningStepRead.status =
      List.replicate (provisioningSteps.take k).length "done" ++
        (stepReads job false (provisioningSteps.drop k)).map ProvisioningStepRead.status := by
    rw [← stepReads_done hfirst, hsplit]
  rw [hdone, List.length_take, Nat.min_eq_left hk]
  cases hdrop : provisioningSteps.drop k with
  | nil =>
    have hall : provisioningSteps.length ≤ k := List.drop_eq_nil_iff.mp hdrop
    simp [stageStatuses, stepReads, Nat.le_antisymm hk hall]
  | cons step rest =>
    have hlength := congrArg List.length hdrop
    rw [List.length_drop, List.length_cons] at hlength
    have hcurrent : job.currentStep = some step := by
      rw [h.2, ← List.head?_drop, hdrop, List.head?_cons]
    rw [hdrop] at hopen
    have hstep := hopen step List.mem_cons_self
    have hrest := stepReads_pending fun s hs => hopen s (List.mem_cons_of_mem _ hs)
    have hshown : stepReads job false (step :: rest) =
        ⟨step, stepLabel step, "in_progress"⟩ :: stepReads job true rest := by
      simp [stepReads, hstep, hcurrent]
    rw [hshown, List.map_cons, hrest, stageStatuses, List.take_append, List.length_replicate,
      hlength, List.take_succ_cons, List.take_of_length_le (by simpa using hk)]
    have hshort : rest.length ≤ provisioningSteps.length := by omega
    simp [List.take_replicate, hshort]

/-- Beyond the last step there is no other stage. -/
theorem AtStage.bounded {k : ℕ} (h : AtStage k job) :
    ∃ i ≤ provisioningSteps.length, AtStage i job := by
  by_cases hk : k ≤ provisioningSteps.length
  · exact ⟨k, hk, h⟩
  · refine ⟨provisioningSteps.length, le_rfl, ?_, ?_⟩
    · rw [h.1, List.take_of_length_le (by omega), List.take_length]
    · rw [h.2, List.getElem?_eq_none (by omega), List.getElem?_eq_none le_rfl]

end

/-- In every interleaving with requests that do not write the jobs, a committed job has done the
first steps and no others, its current step is the one after them, and the screen shows it so. -/
theorem committed_jobs_staged {db : Db} (hstart : Staged db) {n : ℕ} (rs : List ProvisioningRequest)
    {σ : Server Db Statement ServiceError Unit}
    (run : Server.Reaches postgres (fun _ _ => True)
      (start db n (rs.map ProvisioningRequest.request)) σ) :
    ∀ job ∈ σ.committed.tenancy.provisioningJobs.rows, ∃ k ≤ provisioningSteps.length,
      job.completedSteps = provisioningSteps.take k ∧ job.currentStep = provisioningSteps[k]? ∧
        ∀ slug, ((provisioningJobToRead job slug).steps.map ProvisioningStepRead.status =
            stageStatuses k ∧
          (provisioningJobToRead job slug).percentComplete =
            ⌊EngineService.roundTo 0 ((k : ℚ) / provisioningSteps.length * 100)⌋) := by
  have hsafe : ∀ p ∈ rs.map ProvisioningRequest.request,
      Safe postgres (fun _ _ => True) Staged (fun _ => True) p fun _ _ => True := by
    intro p hp
    obtain ⟨r, -, rfl⟩ := List.mem_map.mp hp
    exact request_staged r
  have hstaged : Staged σ.committed := Server.Reaches.safe growth_true hstart hsafe run
  intro job hjob
  obtain ⟨_, hstage⟩ := hstaged job hjob
  obtain ⟨k, hk, hstage⟩ := hstage.bounded
  have hlength : job.completedSteps.length = k := by
    rw [hstage.1, List.length_take, Nat.min_eq_left hk]
  refine ⟨k, hk, hstage.1, hstage.2, fun slug => ⟨hstage.shown hk, ?_⟩⟩
  rw [provisioningJobToRead, hlength]

/-- A tenant with its job, and two sessions that advance the job. -/
def sampleAdvances : List ProvisioningRequest :=
  [.createTenant ⟨7, 8⟩ sampleTenantCreate, .advanceProvisioningJob 8, .advanceProvisioningJob 8]

/-- The second session has read the job before the first one commits, and does the same step. -/
def sampleSchedule : List Action :=
  List.replicate 5 (.run 0) ++ [.run 1, .run 2, .run 1, .run 2, .run 1, .run 1, .run 2, .run 2]

theorem committed_jobs_staged_sample :
    ∃ σ, Server.run postgres (fun _ _ => true)
        (start emptyDb 1 (sampleAdvances.map ProvisioningRequest.request)) sampleSchedule = some σ ∧
      ∀ job ∈ σ.committed.tenancy.provisioningJobs.rows, ∃ k,
        job.completedSteps = provisioningSteps.take k := by
  have hrun : (Server.run postgres (fun _ _ => true)
      (start emptyDb 1 (sampleAdvances.map ProvisioningRequest.request))
      sampleSchedule).isSome = true := by
    decide +kernel
  have hempty : Staged emptyDb := by
    intro j hj
    cases hj
  obtain ⟨σ, hσ⟩ := Option.isSome_iff_exists.mp hrun
  refine ⟨σ, hσ, fun job hjob => ?_⟩
  obtain ⟨k, -, hsteps, -⟩ := committed_jobs_staged hempty sampleAdvances
    (Server.Reaches.of_run (fun _ _ _ => trivial) .refl hσ) job hjob
  exact ⟨k, hsteps⟩

end NexusEngine.ProvisioningRaces
