import NexusEngine.ParameterLifecycle
import NexusEngine.AuditedTransactions

/-!
# The transaction of an apply

An apply fails and leaves the database, or promotes every parameter with a staged value and appends
one entry for each.
-/

namespace NexusEngine.ParameterTransactions

open TransactionalRequests StoredColumns KeyedTables CalendarTime ParameterTables Database
  PythonText AuditService AuditAppends AuditedTransactions ParameterService ParameterLifecycle

/-- The statements that promote parameters, from the `k`-th on. -/
def applyStatements (env : ConfigManagerEnv) (s : ParameterStore) :
    ℕ → List ConfigParameter → List Statement
  | _, [] => []
  | k, parameter :: parameters =>
    promoteStatements (env.now k) parameter
        (pendingChanges (env.changeOrder parameter.id) s parameter.id).head? ++
      applyStatements env s (k + 1) parameters

def applyAppends (tables : CharacterTables) (env : ConfigManagerEnv) (changedBy : String) :
    ℕ → List ConfigParameter → List Append
  | _, [] => []
  | k, parameter :: parameters =>
    (env.audit k, parameterUpdatedEntry tables changedBy parameter) ::
      applyAppends tables env changedBy (k + 1) parameters

theorem applyAppends_length (tables : CharacterTables) (env : ConfigManagerEnv)
    (changedBy : String) (k : ℕ) (parameters : List ConfigParameter) :
    (applyAppends tables env changedBy k parameters).length = parameters.length := by
  induction parameters generalizing k with
  | nil => rfl
  | cons p parameters ih => rw [applyAppends, List.length_cons, List.length_cons, ih]

/-- What an apply sends and appends. -/
inductive ApplyPlan (tables : CharacterTables) (s : ParameterStore) (env : ConfigManagerEnv)
    (changedBy : String) : List Statement → List Append → Prop where
  | applied {parameters : List ConfigParameter}
      (isStaged : parameters = stagedParameters env.parameterOrder s) :
      ApplyPlan tables s env changedBy (applyStatements env s 0 parameters)
        (applyAppends tables env changedBy 0 parameters)

theorem domain_saveParameter {old new : ConfigParameter} : Domain (saveParameter old new) := by
  unfold saveParameter
  split
  · exact domain_nil
  · exact domain_singleton rfl

theorem domain_saveChange {old new : ConfigChange} : Domain (saveChange old new) := by
  unfold saveChange
  split
  · exact domain_nil
  · exact domain_singleton rfl

theorem domain_promoteStatements {now : Instant} {parameter : ConfigParameter}
    {change : Option ConfigChange} : Domain (promoteStatements now parameter change) := by
  refine domain_append.mpr ⟨domain_saveParameter, fun w hw => ?_⟩
  obtain ⟨c, -, hc⟩ := List.mem_flatMap.mp hw
  exact domain_saveChange w hc

section

variable {crypto : AuditCrypto} {tables : CharacterTables} {db durable work : Db} {n m : ℕ}

/-- The rule of the loop, which counts its parameters. That each parameter's changes are still the
ones from the start is the invariant of the promotions. -/
theorem applyParameters_performs {env : ConfigManagerEnv} {changedBy : String}
    {parameters : List ConfigParameter} {done : List Uuid} {k : ℕ} {ws : List Statement}
    {as : List Append} {post : Except ServiceError ℕ → Db → Db → ℕ → Prop}
    (hrest : Remaining db.parameters done parameters)
    (hpromoted : Promoted env changedBy db.parameters work.parameters done)
    (hwork : Performed crypto db n ws as work m)
    (failed : ∀ error work' m', n ≤ m' → post (.error error) durable work' m')
    (performed : ∀ work' m',
      Performed crypto db n (ws ++ applyStatements env db.parameters k parameters)
        (as ++ applyAppends tables env changedBy k parameters) work' m' →
      post (.ok parameters.length) durable work' m') :
    (applyParameters crypto tables env changedBy k parameters).wp postgres post durable work m := by
  induction parameters generalizing work k m ws as done post with
  | nil =>
    refine Request.wp_return (performed work m ?_)
    simpa [applyStatements, applyAppends] using hwork
  | cons p parameters ih =>
    have hle := hwork.le
    have hid := hrest.new p List.mem_cons_self
    refine (Request.wp_bind ..).mpr ?_
    rw [Request.wp_select]
    refine (Request.wp_bind ..).mpr (appendEntryInTransaction_wp
      (fun _ _ hk => failed _ _ _ (by omega)) fun sent row hsent happended _ => ?_)
    have hactor : (varchar 120 changedBy).isSome :=
      Option.isSome_iff_exists.mpr ⟨row.actor, happended.actor⟩
    have hstep := Promoted.step hactor (hrest.rows p List.mem_cons_self) hid hpromoted hsent
    rw [hpromoted.pendingChanges_eq hid] at hsent
    have happend : Performed crypto work m _
        [(env.audit k, parameterUpdatedEntry tables changedBy p)] _ (m + 1) :=
      .of_append domain_promoteStatements hsent happended
    have hmore := hwork.trans domain_promoteStatements happend
    refine (Request.wp_bind ..).mpr (ih hrest.tail hstep hmore failed fun work' m' hperformed => ?_)
    refine Request.wp_return (performed work' m' ?_)
    simpa [applyStatements, applyAppends] using hperformed

theorem applyPendingChanges_ends (env : ConfigManagerEnv) (changedBy : String) :
    (applyPendingChanges crypto tables env changedBy).wp postgres
      (Ends crypto (ApplyPlan tables db.parameters env changedBy) db n) db db n := by
  refine (Request.wp_bind ..).mpr ?_
  rw [Request.wp_select]
  refine (Request.wp_bind ..).mpr (applyParameters_performs (.start _ _)
    (.nil env changedBy db.parameters) (.start crypto db n) (fun _ _ _ hk => .failed hk)
    fun work' m' hperformed => ?_)
  exact Request.wp_commitTransaction_bind (Request.wp_return (.performed (.applied rfl) hperformed))

end

end NexusEngine.ParameterTransactions
