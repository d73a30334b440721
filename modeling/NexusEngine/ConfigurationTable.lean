import NexusEngine.StoredColumns
import NexusEngine.KeyedTables

/-!
# The table of versioned configurations

One row is one version of a named configuration document. The only constraint on names is
that no name has two rows with one version number.
-/

namespace NexusEngine.ConfigurationTable

open StoredColumns KeyedTables JsonDocuments CalendarTime

inductive ConfigurationStatus where
  | draft | active | archived
  deriving DecidableEq, Repr

def ConfigurationStatus.value : ConfigurationStatus → String
  | .draft => "draft"
  | .active => "active"
  | .archived => "archived"

structure Configuration where
  id : Uuid
  name : String
  version : ℕ
  status : ConfigurationStatus
  payload : List (String × Json)
  sensitiveKeys : List String
  checksum : String
  description : Option String
  createdBy : String
  activatedAt : Option Instant
  archivedAt : Option Instant
  deletedAt : Option Instant
  createdAt : Instant
  updatedAt : Instant
  deriving DecidableEq

structure ConfigurationPatch where
  status : Option ConfigurationStatus
  activatedAt : Option (Option Instant)
  archivedAt : Option (Option Instant)
  deletedAt : Option (Option Instant)
  updatedAt : Instant
  deriving DecidableEq, Repr

def ConfigurationPatch.apply (p : ConfigurationPatch) (c : Configuration) : Configuration :=
  { c with
    status := p.status.getD c.status
    activatedAt := p.activatedAt.getD c.activatedAt
    archivedAt := p.archivedAt.getD c.archivedAt
    deletedAt := p.deletedAt.getD c.deletedAt
    updatedAt := p.updatedAt }

/-- The update that makes `old` into `new`. Every update refreshes `updated_at`. -/
def Configuration.diff (old new : Configuration) : ConfigurationPatch where
  status := changed old.status new.status
  activatedAt := changed old.activatedAt new.activatedAt
  archivedAt := changed old.archivedAt new.archivedAt
  deletedAt := changed old.deletedAt new.deletedAt
  updatedAt := new.updatedAt

abbrev Configurations := Table Configuration Uuid Configuration.id

inductive ConfigurationStatement where
  | insert (c : Configuration)
  | update (id : Uuid) (patch : ConfigurationPatch)
  deriving DecidableEq

/-- The largest number that an `Integer` column holds. -/
def maxInteger : ℕ := 2147483647

def insertConfiguration (t : Configurations) (c : Configuration) : Option Configurations := do
  let name ← varchar 120 c.name
  let _ ← json (.obj c.payload)
  let checksum ← varchar 64 c.checksum
  let description ← nullable (varchar 255) c.description
  let createdBy ← varchar 120 c.createdBy
  if t.rows.any fun r => r.name == name && r.version == c.version then none
  else if maxInteger < c.version then none
  else
    t.insert
      { c with
        name := name
        checksum := checksum
        description := description
        createdBy := createdBy }

def updateConfiguration (t : Configurations) (id : Uuid) (patch : ConfigurationPatch) :
    Option Configurations := t.update id patch.apply fun _ => rfl

def ConfigurationStatement.apply : ConfigurationStatement → Configurations → Option Configurations
  | .insert c, t => insertConfiguration t c
  | .update id patch, t => updateConfiguration t id patch

def ConfigurationStatement.conflicts : ConfigurationStatement → ConfigurationStatement → Bool
  | .insert c, .insert c' =>
    c.id == c'.id || (c.name == c'.name && c.version == c'.version)
  | .update id _, .update id' _ => id == id'
  | _, _ => false

/-! ## What an accepted statement does -/

/-- The columns that no update writes agree. -/
structure Configuration.SameDocument (c c' : Configuration) : Prop where
  id : c'.id = c.id
  name : c'.name = c.name
  version : c'.version = c.version
  payload : c'.payload = c.payload
  sensitiveKeys : c'.sensitiveKeys = c.sensitiveKeys
  checksum : c'.checksum = c.checksum
  description : c'.description = c.description
  createdBy : c'.createdBy = c.createdBy
  createdAt : c'.createdAt = c.createdAt

theorem Configuration.SameDocument.refl (c : Configuration) : c.SameDocument c :=
  ⟨rfl, rfl, rfl, rfl, rfl, rfl, rfl, rfl, rfl⟩

theorem Configuration.SameDocument.trans {c₁ c₂ c₃ : Configuration} (h : c₁.SameDocument c₂)
    (h' : c₂.SameDocument c₃) : c₁.SameDocument c₃ where
  id := h'.id.trans h.id
  name := h'.name.trans h.name
  version := h'.version.trans h.version
  payload := h'.payload.trans h.payload
  sensitiveKeys := h'.sensitiveKeys.trans h.sensitiveKeys
  checksum := h'.checksum.trans h.checksum
  description := h'.description.trans h.description
  createdBy := h'.createdBy.trans h.createdBy
  createdAt := h'.createdAt.trans h.createdAt

/-- A patch writes none of the columns of the document. -/
theorem ConfigurationPatch.apply_sameDocument (p : ConfigurationPatch) (c : Configuration) :
    c.SameDocument (p.apply c) := ⟨rfl, rfl, rfl, rfl, rfl, rfl, rfl, rfl, rfl⟩

/-- The columns that updates write, taken over from another object. -/
def Configuration.takeState (row new : Configuration) : Configuration :=
  { row with
    status := new.status
    activatedAt := new.activatedAt
    archivedAt := new.archivedAt
    deletedAt := new.deletedAt
    updatedAt := new.updatedAt }

theorem Configuration.takeState_sameDocument (row new : Configuration) :
    row.SameDocument (row.takeState new) := ⟨rfl, rfl, rfl, rfl, rfl, rfl, rfl, rfl, rfl⟩

theorem Configuration.SameDocument.takeState {c c' : Configuration} (h : c.SameDocument c') :
    c.takeState c' = c' := by
  obtain ⟨hid, hname, hversion, hpayload, hkeys, hchecksum, hdescription, hby, hat⟩ := h
  obtain ⟨⟩ := c'
  simp_all [Configuration.takeState]

/-- The update of an object takes the row it was loaded from to the object's new state. -/
theorem Configuration.diff_apply {old new row : Configuration} (h : row.takeState old = row) :
    (old.diff new).apply row = row.takeState new := by
  rw [← h]
  simp [ConfigurationPatch.apply, Configuration.diff, Configuration.takeState]

/-- The row that is stored of an inserted one. -/
structure StoredAs (c c' : Configuration) : Prop where
  name : varchar 120 c.name = some c'.name
  checksum : varchar 64 c.checksum = some c'.checksum
  rest : c' = { c with
    name := c'.name
    checksum := c'.checksum
    description := c'.description
    createdBy := c'.createdBy }

theorem insertConfiguration_eq_some {t t' : Configurations} {c : Configuration}
    (h : insertConfiguration t c = some t') :
    ∃ c', StoredAs c c' ∧ t.insert c' = some t' := by
  simp only [insertConfiguration, Option.bind_eq_bind, Option.bind_eq_some_iff,
    Option.ite_none_left_eq_some] at h
  obtain ⟨name, hname, _, -, checksum, hchecksum, description, -, createdBy, -, -, -, hinsert⟩ := h
  exact ⟨_, ⟨hname, hchecksum, rfl⟩, hinsert⟩

end NexusEngine.ConfigurationTable
