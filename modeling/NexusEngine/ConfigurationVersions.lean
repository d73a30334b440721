import NexusEngine.ConfigurationLifecycle

/-!
# The versions of a name

The versions of a name are numbered from one without a gap, deleted ones included. A row keeps
its document for ever, and its checksum is that of its own payload.
-/

namespace NexusEngine.ConfigurationVersions

open TransactionalRequests KeyedTables ConfigurationTable Database AuditService
  ConfigurationService ConfigurationLifecycle
open AuditVerification (sha256Crypto)

/-- The versions of a name, in the order in which they were inserted. -/
def versionsOf (t : Configurations) (name : String) : List ℕ :=
  (t.rows.filter fun c => c.name = name).map Configuration.version

/-- The versions of every name count from one, and every checksum is that of the payload. -/
structure Numbered (crypto : AuditCrypto) (t : Configurations) : Prop where
  versions : ∀ name, ∃ k, versionsOf t name = List.range' 1 k
  checksum : ∀ c ∈ t.rows, c.checksum = payloadChecksum crypto c.payload

/-- Every row is still there, with the same document. -/
def KeepsDocuments (t t' : Configurations) : Prop :=
  ∀ c ∈ t.rows, ∃ c' ∈ t'.rows, c.SameDocument c'

variable {crypto : AuditCrypto} {t t' : Configurations}

theorem foldr_max_range' (start k : ℕ) :
    (List.range' start k).foldr max 0 = if k = 0 then 0 else start + k - 1 := by
  induction k generalizing start with
  | zero => rfl
  | succ k ih =>
    rw [List.range'_succ, List.foldr_cons, ih]
    split
    · next hk => simp [hk]
    · rw [if_neg (Nat.succ_ne_zero k)]
      omega

/-- The largest version of a name is the number of its versions. -/
theorem maxVersion_eq {name : String} {k : ℕ} (h : versionsOf t name = List.range' 1 k) :
    maxVersion t name = k := by
  have hmax : maxVersion t name = (List.range' 1 k).foldr max 0 := congrArg (List.foldr max 0) h
  rw [hmax, foldr_max_range']
  split <;> omega

/-- A moved row keeps its name and its version. -/
theorem versionsOf_moved {c c' : Configuration} (mem : c ∈ t.rows) (document : c.SameDocument c')
    (rows : t'.rows = t.rows.map fun d => if d.id = c.id then c' else d) (name : String) :
    versionsOf t' name = versionsOf t name := by
  have hsame : ∀ d ∈ t.rows, d.SameDocument (if d.id = c.id then c' else d) := by
    intro d hd
    split
    · next hid => exact t.eq_of_key_eq hd mem hid ▸ document
    · exact .refl d
  have hversions : ∀ l : List Configuration, (∀ d ∈ l, d ∈ t.rows) →
      (((l.map fun d => if d.id = c.id then c' else d).filter fun d => d.name = name).map
        Configuration.version) = (l.filter fun d => d.name = name).map Configuration.version := by
    intro l hl
    induction l with
    | nil => rfl
    | cons d l ih =>
      have hd := hsame d (hl d List.mem_cons_self)
      have hrest := ih fun e he => hl e (List.mem_cons_of_mem _ he)
      simp only [List.map_cons, List.filter_cons, hd.name]
      split
      · rw [List.map_cons, List.map_cons, hd.version, hrest]
      · exact hrest
  rw [versionsOf, rows]
  exact hversions t.rows fun _ hd => hd

theorem versionsOf_append {c : Configuration} (rows : t'.rows = t.rows ++ [c]) (name : String) :
    versionsOf t' name = versionsOf t name ++ if c.name = name then [c.version] else [] := by
  rw [versionsOf, rows, List.filter_append, List.map_append, List.filter_singleton]
  by_cases hname : c.name = name
  · rw [if_pos hname, decide_eq_true hname]
    rfl
  · rw [if_neg hname, decide_eq_false hname]
    rfl

theorem Numbered.step (h : Numbered crypto t) (step : VersionStep crypto t t') :
    Numbered crypto t' := by
  cases step with
  | inserted c version _ _ _ checksum _ _ rows =>
    constructor
    · intro name
      obtain ⟨k, hk⟩ := h.versions name
      rw [versionsOf_append rows]
      split
      · next hname =>
        subst hname
        refine ⟨k + 1, ?_⟩
        rw [List.range'_1_concat, hk, version, maxVersion_eq hk, Nat.add_comm 1 k]
      · exact ⟨k, hk ▸ List.append_nil _⟩
    · intro d hd
      rw [rows] at hd
      rcases List.mem_append.mp hd with hd | hd
      · exact h.checksum d hd
      · rw [List.mem_singleton.mp hd]
        rcases checksum with hown | ⟨b, hb, hpayload, hcopied⟩
        · exact hown
        · rw [← hcopied, ← hpayload]
          exact h.checksum b hb
  | moved c c' mem document _ rows =>
    constructor
    · intro name
      rw [versionsOf_moved mem document rows]
      exact h.versions name
    · intro d hd
      rcases mem_moved (rows ▸ hd) with rfl | ⟨hd, -⟩
      · rw [document.checksum, document.payload]
        exact h.checksum c mem
      · exact h.checksum d hd

theorem KeepsDocuments.refl (t : Configurations) : KeepsDocuments t t :=
  fun c hc => ⟨c, hc, .refl c⟩

theorem KeepsDocuments.trans {t₁ t₂ t₃ : Configurations} (h : KeepsDocuments t₁ t₂)
    (h' : KeepsDocuments t₂ t₃) : KeepsDocuments t₁ t₃ := by
  intro c hc
  obtain ⟨c', hc', hsame⟩ := h c hc
  obtain ⟨c'', hc'', hsame'⟩ := h' c' hc'
  exact ⟨c'', hc'', hsame.trans hsame'⟩

theorem keepsDocuments_step (step : VersionStep crypto t t') : KeepsDocuments t t' := by
  intro d hd
  cases step with
  | inserted c _ _ _ _ _ _ _ rows => exact ⟨d, rows ▸ List.mem_append_left _ hd, .refl d⟩
  | moved c c' mem document _ rows =>
    refine ⟨if d.id = c.id then c' else d, rows ▸ List.mem_map_of_mem hd, ?_⟩
    split
    · next hid => exact t.eq_of_key_eq hd mem hid ▸ document
    · exact .refl d

/-! ## Runs -/

theorem numbered_steps (steps : Steps crypto t t') (h : Numbered crypto t) :
    Numbered crypto t' := by
  induction steps with
  | refl => exact h
  | tail _ step ih => exact ih.step step

theorem keepsDocuments_steps (steps : Steps crypto t t') : KeepsDocuments t t' := by
  induction steps with
  | refl => exact .refl t
  | tail _ step ih => exact ih.trans (keepsDocuments_step step)

theorem numbered_of_empty (h : t.rows = []) : Numbered crypto t := by
  refine ⟨fun name => ⟨0, ?_⟩, fun c hc => ?_⟩
  · rw [versionsOf, h]
    rfl
  · rw [h] at hc
    nomatch hc

/-- In every run from an empty table the versions of a name are numbered from one, every
checksum is that of its row's payload, and no request of the run takes a row away or changes its
document. -/
theorem versions_numbered_and_kept {s : Store Db} (hempty : s.db.configurations.rows = [])
    (rs : List ConfigurationRequest) :
    Numbered crypto (execAll crypto s rs).db.configurations ∧
      ∀ rs₁ rs₂, rs = rs₁ ++ rs₂ → KeepsDocuments (execAll crypto s rs₁).db.configurations
        (execAll crypto s rs).db.configurations := by
  refine ⟨numbered_steps (execAll_steps_of_empty hempty rs) (numbered_of_empty hempty), ?_⟩
  rintro rs₁ rs₂ rfl
  have hfirst : Steps crypto s.db.configurations (execAll crypto s rs₁).db.configurations :=
    execAll_steps_of_empty hempty rs₁
  rw [execAll_append]
  exact keepsDocuments_steps (execAll_steps (hfirst.lifecycle (lifecycle_of_empty hempty))
    (hfirst.fits (fits_of_empty hempty)) rs₂)

theorem versions_numbered_and_kept_sample :
    let final := execAll sha256Crypto ⟨emptyDb, 1⟩ sampleRun
    Numbered sha256Crypto final.db.configurations ∧
      ∀ rs₁ rs₂, sampleRun = rs₁ ++ rs₂ →
        KeepsDocuments (execAll sha256Crypto ⟨emptyDb, 1⟩ rs₁).db.configurations
          final.db.configurations :=
  versions_numbered_and_kept rfl sampleRun

end NexusEngine.ConfigurationVersions
