import NexusEngine.AuditConcurrentAppends

/-!
# Sanitised metadata

Metadata is sanitised before it is hashed and stored. What is said here of `sanitizeMetadata` is
about the positions of a document: those that no sensitive key leads to are kept, and the first
sensitive key on the way to any other one holds the mark. The schema of anomaly events has a copy
of the function and of the keys.
-/

namespace NexusEngine.MetadataSanitisation

open TransactionalRequests ReadCommittedSessions TextEncodings JsonDocuments StoredColumns
  AuditLogTable Database AuditService AuditAppends AuditConcurrentAppends
open AuditVerification (samplePayload sampleEnv sha256Crypto)

/-! ## The copy of the schema -/

namespace AnomalySchema

def redactedMetadataValue : Json := .str "[REDACTED]"

def sensitiveMetadataKeys : List String :=
  ["access_token", "api_key", "apikey", "authorization", "credential", "credentials",
    "password", "private_key", "refresh_token", "secret", "secret_key", "token"]

def isSensitiveKey (key : String) : Bool :=
  sensitiveMetadataKeys.any fun s => chars s == (chars key).map lowerChar

mutual

def redactSensitiveMetadata : Json → Json
  | .obj kvs => .obj (redactMembers kvs)
  | .arr vs => .arr (redactItems vs)
  | v => v
termination_by structural v => v

def redactItems : List Json → List Json
  | [] => []
  | v :: vs => redactSensitiveMetadata v :: redactItems vs
termination_by structural vs => vs

def redactMembers : List (String × Json) → List (String × Json)
  | [] => []
  | kv :: kvs => redactMember kv :: redactMembers kvs
termination_by structural kvs => kvs

def redactMember : String × Json → String × Json
  | (k, v) => (k, if isSensitiveKey k then redactedMetadataValue else redactSensitiveMetadata v)
termination_by structural kv => kv

end

theorem redactItems_eq_map (vs : List Json) : redactItems vs = vs.map redactSensitiveMetadata := by
  induction vs with
  | nil => rfl
  | cons v vs ih => rw [redactItems, ih, List.map_cons]

theorem redactMembers_eq_map (kvs : List (String × Json)) :
    redactMembers kvs = kvs.map redactMember := by
  induction kvs with
  | nil => rfl
  | cons kv kvs ih => rw [redactMembers, ih, List.map_cons]

end AnomalySchema

open AnomalySchema (redactSensitiveMetadata redactMember redactItems_eq_map redactMembers_eq_map)

/-! ## Containers -/

theorem sanitizeItems_eq_map (vs : List Json) : sanitizeItems vs = vs.map sanitizeMetadata := by
  induction vs with
  | nil => rfl
  | cons v vs ih => rw [sanitizeItems, ih, List.map_cons]

theorem sanitizeMembers_eq_map (kvs : List (String × Json)) :
    sanitizeMembers kvs = kvs.map sanitizeMember := by
  induction kvs with
  | nil => rfl
  | cons kv kvs ih => rw [sanitizeMembers, ih, List.map_cons]

@[simp] theorem sanitizeMetadata_obj (kvs : List (String × Json)) :
    sanitizeMetadata (.obj kvs) = .obj (kvs.map sanitizeMember) := by
  rw [sanitizeMetadata, sanitizeMembers_eq_map]

@[simp] theorem sanitizeMetadata_arr (vs : List Json) :
    sanitizeMetadata (.arr vs) = .arr (vs.map sanitizeMetadata) := by
  rw [sanitizeMetadata, sanitizeItems_eq_map]

@[simp] theorem sanitizeMember_key (kv : String × Json) : (sanitizeMember kv).1 = kv.1 := by
  cases kv
  rfl

theorem sanitizeMember_sensitive {kv : String × Json} (h : isSensitiveKey kv.1 = true) :
    sanitizeMember kv = (kv.1, redactedMetadataValue) := by
  obtain ⟨k, v⟩ := kv
  rw [sanitizeMember, if_pos h]

theorem sanitizeMember_public {kv : String × Json} (h : isSensitiveKey kv.1 = false) :
    sanitizeMember kv = (kv.1, sanitizeMetadata kv.2) := by
  obtain ⟨k, v⟩ := kv
  rw [sanitizeMember, if_neg (Bool.eq_false_iff.mp h)]

/-! ## Positions -/

/-- One step into a container: to the value of a key or to an item. -/
inductive Step where
  | key (k : String)
  | index (i : ℕ)
  deriving DecidableEq, Repr

def child : Json → Step → Option Json
  | .obj kvs, .key k => (kvs.find? fun kv => kv.1 = k).map Prod.snd
  | .arr vs, .index i => vs[i]?
  | _, _ => none

/-- The value at a position. -/
def valueAt (v : Json) : List Step → Option Json
  | [] => some v
  | step :: path => (child v step).bind fun w => valueAt w path

/-- No key on the way is sensitive. -/
def Public (path : List Step) : Prop := ∀ k, .key k ∈ path → isSensitiveKey k = false

/-- What a value is by itself: an object is its keys, a list its length, a leaf all of it. -/
inductive Shape where
  | object (keys : List String)
  | list (length : ℕ)
  | leaf (v : Json)

def shape : Json → Shape
  | .obj kvs => .object (kvs.map Prod.fst)
  | .arr vs => .list vs.length
  | v => .leaf v

theorem shape_sanitizeMetadata (v : Json) : shape (sanitizeMetadata v) = shape v := by
  cases v with
  | obj kvs => simp [shape, Function.comp_def]
  | arr vs => simp [shape]
  | _ => rfl

theorem find?_sanitizeMember (kvs : List (String × Json)) (k : String) :
    (kvs.map sanitizeMember).find? (fun kv => kv.1 = k) =
      (kvs.find? fun kv => kv.1 = k).map sanitizeMember := by
  rw [List.find?_map]
  simp only [Function.comp_def, sanitizeMember_key]

theorem child_public {step : Step} (h : ∀ k, step = .key k → isSensitiveKey k = false) (v : Json) :
    child (sanitizeMetadata v) step = (child v step).map sanitizeMetadata := by
  cases v with
  | obj kvs =>
    cases step with
    | index i => simp [child]
    | key k =>
      simp only [sanitizeMetadata_obj, child, find?_sanitizeMember, Option.map_map]
      cases hfind : kvs.find? fun kv => kv.1 = k with
      | none => rfl
      | some kv =>
        have hkey : kv.1 = k := by simpa using List.find?_some hfind
        have hpublic : isSensitiveKey kv.1 = false := hkey ▸ h k rfl
        simp [sanitizeMember_public hpublic]
  | arr vs =>
    cases step with
    | index i => simp [child]
    | key k => simp [child]
  | _ => cases step <;> rfl

theorem child_sensitive {k : String} (h : isSensitiveKey k = true) (v : Json) :
    child (sanitizeMetadata v) (.key k) = (child v (.key k)).map fun _ => redactedMetadataValue := by
  cases v with
  | obj kvs =>
    simp only [sanitizeMetadata_obj, child, find?_sanitizeMember, Option.map_map]
    cases hfind : kvs.find? fun kv => kv.1 = k with
    | none => rfl
    | some kv =>
      have hkey : kv.1 = k := by simpa using List.find?_some hfind
      have hsensitive : isSensitiveKey kv.1 = true := hkey ▸ h
      simp [sanitizeMember_sensitive hsensitive]
  | arr vs => simp [child]
  | _ => rfl

theorem valueAt_append (v : Json) (path path' : List Step) :
    valueAt v (path ++ path') = (valueAt v path).bind fun w => valueAt w path' := by
  induction path generalizing v with
  | nil => rfl
  | cons step path ih => simp only [List.cons_append, valueAt, Option.bind_assoc, ih]

/-- The document is sanitised position by position. -/
theorem valueAt_public {path : List Step} (h : Public path) (v : Json) :
    valueAt (sanitizeMetadata v) path = (valueAt v path).map sanitizeMetadata := by
  induction path generalizing v with
  | nil => rfl
  | cons step path ih =>
    have hstep : ∀ k, step = .key k → isSensitiveKey k = false := fun k hk =>
      h k (hk ▸ List.mem_cons_self)
    have hpath : Public path := fun k hk => h k (List.mem_cons_of_mem _ hk)
    simp only [valueAt, child_public hstep, Option.bind_map]
    cases child v step with
    | none => rfl
    | some w => exact ih hpath w

/-- Outside sensitive positions keys, lengths and leaves are kept. -/
theorem shape_public {path : List Step} (h : Public path) (v : Json) :
    (valueAt (sanitizeMetadata v) path).map shape = (valueAt v path).map shape := by
  rw [valueAt_public h, Option.map_map]
  congr 1
  funext w
  exact shape_sanitizeMetadata w

/-- The outermost sensitive keys hold the mark. -/
theorem valueAt_sensitive {path : List Step} {k : String} (h : Public path)
    (hk : isSensitiveKey k = true) (v : Json) :
    valueAt (sanitizeMetadata v) (path ++ [.key k]) =
      (valueAt v (path ++ [.key k])).map fun _ => redactedMetadataValue := by
  rw [valueAt_append, valueAt_append, valueAt_public h]
  cases valueAt v path with
  | none => rfl
  | some w =>
    simp only [Option.map_some, Option.bind_some, valueAt, child_sensitive hk]
    cases child w (.key k) with
    | none => rfl
    | some x => rfl

/-- `w` is `v` with the mark at the outermost sensitive keys. -/
structure Redacts (v w : Json) : Prop where
  kept : ∀ path, Public path → (valueAt w path).map shape = (valueAt v path).map shape
  marked : ∀ path k, Public path → isSensitiveKey k = true →
    valueAt w (path ++ [.key k]) =
      (valueAt v (path ++ [.key k])).map fun _ => redactedMetadataValue

theorem redacts_sanitizeMetadata (v : Json) : Redacts v (sanitizeMetadata v) where
  kept _ h := shape_public h v
  marked _ _ h hk := valueAt_sensitive h hk v

/-! ## Sanitised documents -/

mutual

/-- Every sensitive key holds the mark. -/
def isSanitized : Json → Bool
  | .obj kvs => isSanitizedMembers kvs
  | .arr vs => isSanitizedItems vs
  | _ => true
termination_by structural v => v

def isSanitizedItems : List Json → Bool
  | [] => true
  | v :: vs => isSanitized v && isSanitizedItems vs
termination_by structural vs => vs

def isSanitizedMembers : List (String × Json) → Bool
  | [] => true
  | kv :: kvs => isSanitizedMember kv && isSanitizedMembers kvs
termination_by structural kvs => kvs

def isSanitizedMember : String × Json → Bool
  | (k, v) => if isSensitiveKey k then decide (v = redactedMetadataValue) else isSanitized v
termination_by structural kv => kv

end

theorem isSanitizedItems_eq_all (vs : List Json) : isSanitizedItems vs = vs.all isSanitized := by
  induction vs with
  | nil => rfl
  | cons v vs ih => rw [isSanitizedItems, ih, List.all_cons]

theorem isSanitizedMembers_eq_all (kvs : List (String × Json)) :
    isSanitizedMembers kvs = kvs.all isSanitizedMember := by
  induction kvs with
  | nil => rfl
  | cons kv kvs ih => rw [isSanitizedMembers, ih, List.all_cons]

theorem isSanitized_sanitizeMetadata (v : Json) : isSanitized (sanitizeMetadata v) = true := by
  induction v using Json.induct with
  | arr vs ih =>
    rw [sanitizeMetadata_arr, isSanitized, isSanitizedItems_eq_all, List.all_map]
    exact List.all_eq_true.mpr ih
  | obj kvs ih =>
    rw [sanitizeMetadata_obj, isSanitized, isSanitizedMembers_eq_all, List.all_map]
    refine List.all_eq_true.mpr fun kv hkv => ?_
    rw [Function.comp]
    by_cases hk : isSensitiveKey kv.1 = true
    · rw [sanitizeMember_sensitive hk, isSanitizedMember, if_pos hk]
      rfl
    · rw [sanitizeMember_public (Bool.not_eq_true _ ▸ hk), isSanitizedMember, if_neg hk]
      exact ih kv hkv
  | _ => rfl

/-- A document that has the mark at every sensitive key is left alone. -/
theorem sanitizeMetadata_of_isSanitized {v : Json} (h : isSanitized v = true) :
    sanitizeMetadata v = v := by
  induction v using Json.induct with
  | arr vs ih =>
    rw [isSanitized, isSanitizedItems_eq_all, List.all_eq_true] at h
    rw [sanitizeMetadata_arr]
    exact congrArg Json.arr ((List.map_congr_left fun v hv => ih v hv (h v hv)).trans
      (List.map_id' vs))
  | obj kvs ih =>
    rw [isSanitized, isSanitizedMembers_eq_all, List.all_eq_true] at h
    rw [sanitizeMetadata_obj]
    refine congrArg Json.obj ((List.map_congr_left fun kv hkv => ?_).trans (List.map_id' kvs))
    obtain ⟨k, v⟩ := kv
    have hmember := h (k, v) hkv
    rw [isSanitizedMember] at hmember
    by_cases hk : isSensitiveKey k = true
    · rw [if_pos hk, decide_eq_true_eq] at hmember
      rw [sanitizeMember_sensitive hk, hmember]
    · rw [if_neg hk] at hmember
      rw [sanitizeMember_public (Bool.not_eq_true _ ▸ hk), ih (k, v) hkv hmember]
  | _ => rfl

theorem sanitizeMetadata_idempotent (v : Json) :
    sanitizeMetadata (sanitizeMetadata v) = sanitizeMetadata v :=
  sanitizeMetadata_of_isSanitized (isSanitized_sanitizeMetadata v)

/-- The two copies compute the same. -/
theorem redactSensitiveMetadata_eq (v : Json) : redactSensitiveMetadata v = sanitizeMetadata v := by
  induction v using Json.induct with
  | arr vs ih =>
    rw [redactSensitiveMetadata, redactItems_eq_map, sanitizeMetadata_arr]
    exact congrArg Json.arr (List.map_congr_left ih)
  | obj kvs ih =>
    rw [redactSensitiveMetadata, redactMembers_eq_map, sanitizeMetadata_obj]
    refine congrArg Json.obj (List.map_congr_left fun kv hkv => ?_)
    obtain ⟨k, v⟩ := kv
    have hv : redactSensitiveMetadata v = sanitizeMetadata v := ih (k, v) hkv
    rw [redactMember, sanitizeMember, hv]
    rfl
  | _ => rfl

/-! ## Documents that differ under sensitive keys -/

mutual

/-- The documents agree but for values of sensitive keys. -/
inductive SameOutside : Json → Json → Prop where
  | same (v : Json) : SameOutside v v
  | list {vs ws : List Json} (items : SameItems vs ws) : SameOutside (.arr vs) (.arr ws)
  | object {kvs kws : List (String × Json)} (members : SameMembers kvs kws) :
      SameOutside (.obj kvs) (.obj kws)

inductive SameItems : List Json → List Json → Prop where
  | nil : SameItems [] []
  | cons {v w : Json} {vs ws : List Json} (item : SameOutside v w) (items : SameItems vs ws) :
      SameItems (v :: vs) (w :: ws)

inductive SameMembers : List (String × Json) → List (String × Json) → Prop where
  | nil : SameMembers [] []
  | secret {k : String} {kvs kws : List (String × Json)} (h : isSensitiveKey k = true) (v w : Json)
      (members : SameMembers kvs kws) : SameMembers ((k, v) :: kvs) ((k, w) :: kws)
  | cons {k : String} {v w : Json} {kvs kws : List (String × Json)} (value : SameOutside v w)
      (members : SameMembers kvs kws) : SameMembers ((k, v) :: kvs) ((k, w) :: kws)

end

/-- What is under a sensitive key leaves no trace. -/
theorem SameOutside.sanitizeMetadata_eq {v w : Json} (h : SameOutside v w) :
    sanitizeMetadata w = sanitizeMetadata v := by
  refine @SameOutside.rec (fun v w _ => sanitizeMetadata w = sanitizeMetadata v)
    (fun vs ws _ => ws.map sanitizeMetadata = vs.map sanitizeMetadata)
    (fun kvs kws _ => kws.map sanitizeMember = kvs.map sanitizeMember)
    ?_ ?_ ?_ ?_ ?_ ?_ ?_ ?_ v w h
  · exact fun _ => rfl
  · intro vs ws _ ih
    rw [sanitizeMetadata_arr, sanitizeMetadata_arr, ih]
  · intro kvs kws _ ih
    rw [sanitizeMetadata_obj, sanitizeMetadata_obj, ih]
  · rfl
  · intro v w vs ws _ _ ih ihs
    rw [List.map_cons, List.map_cons, ih, ihs]
  · rfl
  · intro k kvs kws hk v w _ ihs
    have hw : sanitizeMember (k, w) = (k, redactedMetadataValue) := sanitizeMember_sensitive hk
    have hv : sanitizeMember (k, v) = (k, redactedMetadataValue) := sanitizeMember_sensitive hk
    rw [List.map_cons, List.map_cons, hw, hv, ihs]
  · intro k v w kvs kws _ _ ih ihs
    rw [List.map_cons, List.map_cons, sanitizeMember, sanitizeMember, ih, ihs]

/-- Sanitising looks at keys, and not at their order. -/
theorem sortKeys_sanitizeMetadata (v : Json) :
    sortKeys (sanitizeMetadata v) = sanitizeMetadata (sortKeys v) := by
  induction v using Json.induct with
  | arr vs ih =>
    rw [sanitizeMetadata_arr, sortKeys, sortKeys, sanitizeMetadata_arr, sortKeysItems_eq_map,
      sortKeysItems_eq_map, List.map_map, List.map_map]
    exact congrArg Json.arr (List.map_congr_left ih)
  | obj kvs ih =>
    have hmembers : (kvs.map sanitizeMember).map (fun kv => (kv.1, sortKeys kv.2)) =
        (kvs.map fun kv => (kv.1, sortKeys kv.2)).map sanitizeMember := by
      rw [List.map_map, List.map_map]
      refine List.map_congr_left fun kv hkv => ?_
      simp only [Function.comp]
      by_cases hk : isSensitiveKey kv.1 = true
      · have hsorted : sanitizeMember (kv.1, sortKeys kv.2) = (kv.1, redactedMetadataValue) :=
          sanitizeMember_sensitive hk
        rw [sanitizeMember_sensitive hk, hsorted]
        rfl
      · have hpublic : isSensitiveKey kv.1 = false := Bool.not_eq_true _ ▸ hk
        have hsorted : sanitizeMember (kv.1, sortKeys kv.2) =
            (kv.1, sanitizeMetadata (sortKeys kv.2)) := sanitizeMember_public hpublic
        rw [sanitizeMember_public hpublic, hsorted, ih kv hkv]
    rw [sanitizeMetadata_obj, sortKeys, sortKeys, sanitizeMetadata_obj, sortKeysMembers_eq_map,
      sortKeysMembers_eq_map, hmembers, sortMembers, sortMembers]
    refine congrArg Json.obj (List.map_insertionSort _ _ _ _ fun a _ b _ => ?_).symm
    rw [sanitizeMember_key, sanitizeMember_key]
  | _ => rfl

/-- Documents that agree up to the order of their keys and but for values of sensitive ones have
the same canonical bytes once they are sanitised. -/
theorem canonicalPayload_sanitizeMetadata {v w : Json}
    (h : SameOutside (sortKeys v) (sortKeys w)) (before : Option String) (f : EntryFields) :
    canonicalPayload before { f with metadataJson := sanitizeMetadata w } =
      canonicalPayload before { f with metadataJson := sanitizeMetadata v } := by
  have hsorted : sortKeys (sanitizeMetadata w) = sortKeys (sanitizeMetadata v) := by
    rw [sortKeys_sanitizeMetadata, sortKeys_sanitizeMetadata, h.sanitizeMetadata_eq]
  refine AuditVerification.canonicalPayload_inj.mpr ⟨rfl, ?_⟩
  simp only [AuditVerification.normalFields, hsorted]

/-! ## Logs -/

/-- No row has a sensitive key with another value than the mark. -/
def SanitizedLog (log : List AuditLogEntry) : Prop :=
  ∀ r ∈ log, isSanitized r.metadataJson = true

/-- The statements insert entries whose metadata is sanitised. -/
def InsertsSanitized (ws : List Statement) : Prop :=
  ∀ w ∈ ws, ∃ entry n, w = .insertAuditLogEntry entry n ∧ isSanitized entry.metadataJson = true

theorem insertsSanitized_of_sendsEntry {crypto : AuditCrypto} {db : Db} {pending ws : List Statement}
    {n : ℕ} (h : SendsEntry crypto db pending n ws) : InsertsSanitized ws := by
  obtain ⟨env, payload, signature, _, view, -, -, -, rfl⟩ := h
  intro w hw
  obtain rfl := List.mem_singleton.mp hw
  exact ⟨_, n, rfl, isSanitized_sanitizeMetadata _⟩

/-- Such statements keep the rows that are there and add sanitised ones. -/
theorem InsertsSanitized.applyAll {ws : List Statement} (h : InsertsSanitized ws) {db view : Db}
    (happly : postgres.applyAll ws db = some view) :
    ∃ rows, view.auditLog = db.auditLog ++ rows ∧ SanitizedLog rows := by
  induction ws generalizing db with
  | nil =>
    cases happly
    exact ⟨[], (List.append_nil _).symm, fun r hr => (nomatch hr)⟩
  | cons w ws ih =>
    obtain ⟨mid, hmid, hrest⟩ := Option.bind_eq_some_iff.mp happly
    obtain ⟨entry, n, rfl, hentry⟩ := h w List.mem_cons_self
    obtain ⟨row, hrow, -, rfl⟩ := apply_insertAuditLogEntry.mp hmid
    obtain ⟨rows, hview, hrows⟩ := ih (fun v hv => h v (List.mem_cons_of_mem _ hv)) hrest
    refine ⟨row :: rows, by simp [hview], fun r hr => ?_⟩
    rcases List.mem_cons.mp hr with rfl | hr
    · rw [(NewAuditLogEntry.keptAs hrow).metadataJson]
      exact hentry
    · exact hrows r hr

/-- In every interleaving of transactions that append, every row that the log has gained is
sanitised. -/
theorem reaches_sanitized {crypto : AuditCrypto} {db : Db} {n : ℕ} (ts : List AppendTransaction)
    {σ : Server Db Statement ServiceError Unit}
    (run : Server.Reaches postgres (fun _ _ => True) (start db n (ts.map (·.request crypto))) σ) :
    ∃ rows, σ.committed.auditLog = db.auditLog ++ rows ∧ SanitizedLog rows := by
  have hpromise : ∀ p ∈ ts.map (·.request crypto),
      Guarantees postgres Extends (SendsEntry crypto) p (fun _ _ _ => True) [] db := by
    intro p hp
    obtain ⟨t, -, rfl⟩ := List.mem_map.mp hp
    exact request_sends t db
  refine (Server.Reaches.preserves
    (fun view => ∃ rows, view.auditLog = db.auditLog ++ rows ∧ SanitizedLog rows)
    (fun _ ws => InsertsSanitized ws) Extends.refl Extends.trans ?_ ?_ ?_ ?_ ?_ hpromise run).1
  · exact fun _ w hw => (nomatch hw)
  · exact fun _ _ _ _ h => h
  · intro db' k pending ws hpending hsends w hw
    rcases List.mem_append.mp hw with hw | hw
    · exact hpending w hw
    · exact insertsSanitized_of_sendsEntry hsends w hw
  · rintro db' ws view ⟨rows, hrows, hsanitized⟩ hheld - happly
    obtain ⟨added, hadded, hnew⟩ := hheld.applyAll happly
    refine ⟨⟨rows ++ added, by rw [hadded, hrows, List.append_assoc], fun r hr => ?_⟩, ?_⟩
    · exact (List.mem_append.mp hr).elim (hsanitized r) (hnew r)
    · exact ⟨added, hadded.symm⟩
  · exact ⟨[], (List.append_nil _).symm, fun r hr => (nomatch hr)⟩

/-- Sanitised metadata tells nothing of what sensitive keys held, neither in the document nor in
the bytes and the hash of an entry, and no run of appends stores any other metadata. -/
theorem metadata_sanitized (crypto : AuditCrypto) :
    (∀ v : Json, Redacts v (sanitizeMetadata v) ∧
      sanitizeMetadata (sanitizeMetadata v) = sanitizeMetadata v ∧
      redactSensitiveMetadata v = sanitizeMetadata v) ∧
    (∀ v w : Json, SameOutside v w → sanitizeMetadata w = sanitizeMetadata v) ∧
    (∀ (v w : Json) (before : Option String) (f : EntryFields),
      SameOutside (sortKeys v) (sortKeys w) →
      canonicalPayload before { f with metadataJson := sanitizeMetadata w } =
        canonicalPayload before { f with metadataJson := sanitizeMetadata v } ∧
      crypto.computeEntryHash before { f with metadataJson := sanitizeMetadata w } =
        crypto.computeEntryHash before { f with metadataJson := sanitizeMetadata v }) ∧
    ∀ (db : Db) (n : ℕ) (ts : List AppendTransaction) (σ : Server Db Statement ServiceError Unit),
      Server.Reaches postgres (fun _ _ => True) (start db n (ts.map (·.request crypto))) σ →
      SanitizedLog db.auditLog → SanitizedLog σ.committed.auditLog := by
  refine ⟨fun v => ⟨redacts_sanitizeMetadata v, sanitizeMetadata_idempotent v,
    redactSensitiveMetadata_eq v⟩, fun v w h => h.sanitizeMetadata_eq, ?_, ?_⟩
  · intro v w before f h
    have hpayload := canonicalPayload_sanitizeMetadata h before f
    refine ⟨hpayload, ?_⟩
    unfold AuditCrypto.computeEntryHash
    rw [hpayload]
  · intro db n ts σ run hdb
    obtain ⟨rows, hrows, hsanitized⟩ := reaches_sanitized ts run
    rw [hrows]
    exact fun r hr => (List.mem_append.mp hr).elim (hdb r) (hsanitized r)

/-- The metadata of an append, with a token under a key of another case in a list. -/
def sampleMetadata (token : String) : List (String × Json) :=
  [("region", .str "eu-west-1"), ("probes", .arr [.obj [("Access_Token", .str token)]])]

def sampleAppend : AppendTransaction :=
  .standalone (sampleEnv 0)
    { samplePayload "info" "first event" with metadataJson := sampleMetadata "t1" }

theorem sampleMetadata_sameOutside (token token' : String) :
    SameOutside (sortKeys (.obj (sampleMetadata token)))
      (sortKeys (.obj (sampleMetadata token'))) := by
  have hkey : isSensitiveKey "Access_Token" = true := by decide +kernel
  exact .object (.cons (.list (.cons (.object (.secret hkey _ _ .nil)) .nil))
    (.cons (.same _) .nil))

theorem metadata_sanitized_sample :
    canonicalPayload none { payloadFields 0 (samplePayload "info" "first event") with
        metadataJson := sanitizeMetadata (.obj (sampleMetadata "t2")) } =
      canonicalPayload none { payloadFields 0 (samplePayload "info" "first event") with
        metadataJson := sanitizeMetadata (.obj (sampleMetadata "t1")) } ∧
    ∃ σ, Server.run postgres (fun _ _ => true) (start emptyDb 1 [sampleAppend.request sha256Crypto])
        [.run 0, .run 0, .run 0, .run 0] = some σ ∧ SanitizedLog σ.committed.auditLog := by
  refine ⟨((metadata_sanitized sha256Crypto).2.2.1 _ _ none _
    (sampleMetadata_sameOutside "t1" "t2")).1, ?_⟩
  have hrun : (Server.run postgres (fun _ _ => true)
        (start emptyDb 1 [sampleAppend.request sha256Crypto]) [.run 0, .run 0, .run 0, .run 0]).isSome = true := by
    decide +kernel
  obtain ⟨σ, hσ⟩ := Option.isSome_iff_exists.mp hrun
  refine ⟨σ, hσ, (metadata_sanitized sha256Crypto).2.2.2 emptyDb 1
    [sampleAppend] σ (Server.Reaches.of_run (fun _ _ _ => trivial) .refl hσ) fun r hr => ?_⟩
  cases hr

end NexusEngine.MetadataSanitisation
