import NexusEngine.ComplianceScreens

/-!
# Score trends

The snapshots of a window are collected by their frameworks, and every framework that has some gets
a series. The series trace the window without loss: every snapshot is a point of the series of its
framework, and the points come in the order of their times.
-/

namespace NexusEngine.ScoreTrends

open KeyedTables StoredColumns CalendarTime ComplianceService CollectedGroups ComplianceScreens
open EngineService (roundTo)
open TenancyScreens (hours subHours)

/-! ## The request -/

structure ScoreTrendPoint where
  capturedAt : Instant
  score : ℚ

structure ScoreTrendSeries where
  frameworkId : Uuid
  code : String
  displayName : String
  currentScore : ℚ
  delta : ℚ
  points : List ScoreTrendPoint

structure ScoreTrendsResponse where
  windowDays : ℕ
  series : List ScoreTrendSeries

def pointOf (r : ComplianceScoreSnapshot) : ScoreTrendPoint where
  capturedAt := r.capturedAt
  score := r.score

/-- `ORDER BY framework_id, captured_at`. -/
def snapshotOrder (a b : ComplianceScoreSnapshot) : Bool :=
  a.frameworkId < b.frameworkId || a.frameworkId = b.frameworkId && a.capturedAt ≤ b.capturedAt

def inTime (snaps : List ComplianceScoreSnapshot) : List ComplianceScoreSnapshot :=
  snaps.insertionSort fun a b => a.capturedAt ≤ b.capturedAt

/-- The series of a group. Without a first snapshot there would be an `IndexError`, and without
its framework an `AttributeError`. -/
def scoreSeries (d : ComplianceData) (g : Uuid × List ComplianceScoreSnapshot) :
    Option ScoreTrendSeries := do
  let snaps := inTime g.2
  let first ← snaps.head?
  let last ← snaps.getLast?
  let framework ← d.tables.frameworks.find? first.frameworkId
  return {
    frameworkId := g.1
    code := framework.code.value
    displayName := (d.columns framework.id).displayName
    currentScore := last.score
    delta := roundTo 1 (last.score - first.score)
    points := snaps.map pointOf }

def getScoreTrends (before : Uuid → Uuid → Bool) (d : ComplianceData) (now : Instant)
    (windowDays : ℕ) : Option ScoreTrendsResponse := do
  let since ← subHours now (24 * windowDays)
  let snapshots := ((d.scoreSnapshots.scan before).filter fun r =>
    since ≤ r.capturedAt).insertionSort fun a b => snapshotOrder a b
  let series ← (collect ComplianceScoreSnapshot.frameworkId snapshots).mapM (scoreSeries d)
  return {
    windowDays := windowDays
    series := series.insertionSort fun a b => a.displayName ≤ b.displayName }

/-! ## One series -/

/-- The series shows the snapshots of the framework, from the first to the last. -/
structure SeriesOf (d : ComplianceData) (g : Uuid × List ComplianceScoreSnapshot)
    (t : ScoreTrendSeries) : Prop where
  frameworkId : t.frameworkId = g.1
  framework : ∃ f ∈ d.tables.frameworks.rows, f.id = g.1 ∧ t.code = f.code.value ∧
    t.displayName = (d.columns f.id).displayName
  points : t.points.Perm (g.2.map pointOf)
  timed : t.points.Pairwise fun p q => p.capturedAt ≤ q.capturedAt
  ends : ∃ first last, t.points.head? = some first ∧ t.points.getLast? = some last ∧
    t.currentScore = last.score ∧ t.delta = roundTo 1 (last.score - first.score)

theorem inTime_perm (snaps : List ComplianceScoreSnapshot) : (inTime snaps).Perm snaps :=
  List.perm_insertionSort _ _

theorem inTime_sorted (snaps : List ComplianceScoreSnapshot) :
    (inTime snaps).Pairwise fun a b => a.capturedAt ≤ b.capturedAt := by
  have htotal : Std.Total fun a b : ComplianceScoreSnapshot => a.capturedAt ≤ b.capturedAt :=
    ⟨fun a b => le_total a.capturedAt b.capturedAt⟩
  have htrans : IsTrans ComplianceScoreSnapshot fun a b => a.capturedAt ≤ b.capturedAt :=
    ⟨fun _ _ _ => le_trans⟩
  exact List.pairwise_insertionSort _ _

/-- A group of snapshots of one framework has a series. -/
theorem scoreSeries_spec {d : ComplianceData} {g : Uuid × List ComplianceScoreSnapshot}
    (hsome : g.2 ≠ []) (hgroup : ∀ r ∈ g.2, r ∈ d.scoreSnapshots.rows ∧ r.frameworkId = g.1) :
    ∃ t, scoreSeries d g = some t ∧ SeriesOf d g t := by
  have hperm := inTime_perm g.2
  have hsnaps : inTime g.2 ≠ [] := by
    intro hnil
    rw [hnil] at hperm
    exact hsome hperm.nil_eq.symm
  obtain ⟨first, rest, heq⟩ := List.exists_cons_of_ne_nil hsnaps
  have hfirst : first ∈ g.2 := hperm.mem_iff.mp (heq ▸ List.mem_cons_self)
  obtain ⟨last, hlast⟩ := Option.isSome_iff_exists.mp (List.getLast?_isSome.mpr hsnaps)
  obtain ⟨hrow, hid⟩ := hgroup first hfirst
  obtain ⟨f, hf, hfid⟩ := d.snapshots_refer first hrow
  have hfind : d.tables.frameworks.find? first.frameworkId = some f :=
    Table.find?_eq_some.mpr ⟨hf, hfid⟩
  have hhead : (inTime g.2).head? = some first := by rw [heq, List.head?_cons]
  refine ⟨_, by simp [scoreSeries, hhead, hlast, hfind]; rfl, ?_⟩
  constructor
  case frameworkId => rfl
  case framework => exact ⟨f, hf, hfid.trans hid, rfl, rfl⟩
  case points => exact hperm.map pointOf
  case timed => exact List.pairwise_map.mpr (inTime_sorted g.2)
  case ends =>
    refine ⟨pointOf first, pointOf last, ?_, ?_, rfl, rfl⟩
    · rw [List.head?_map, hhead, Option.map_some]
    · rw [List.getLast?_map, hlast, Option.map_some]

/-- Where every item has an image, so has the list. -/
theorem mapM_forall₂ {α β : Type} {f : α → Option β} {P : α → β → Prop} {as : List α}
    (h : ∀ a ∈ as, ∃ b, f a = some b ∧ P a b) :
    ∃ bs, as.mapM f = some bs ∧ List.Forall₂ P as bs := by
  induction as with
  | nil => exact ⟨[], rfl, .nil⟩
  | cons a as ih =>
    obtain ⟨hfirst, hrest⟩ := List.forall_mem_cons.mp h
    obtain ⟨b, hb, hp⟩ := hfirst
    obtain ⟨bs, hbs, hps⟩ := ih hrest
    exact ⟨b :: bs, by simp [List.mapM_cons, hb, hbs], .cons hp hps⟩

/-! ## The window -/

/-- A snapshot as a point of the series of its framework. -/
def tracedPoint (r : ComplianceScoreSnapshot) : Uuid × ScoreTrendPoint := (r.frameworkId, pointOf r)

def seriesPoints (t : ScoreTrendSeries) : List (Uuid × ScoreTrendPoint) :=
  t.points.map fun p => (t.frameworkId, p)

/-- The series show every snapshot of the window once, under its framework, and nothing else. -/
structure Traces (d : ComplianceData) (window : List ComplianceScoreSnapshot)
    (series : List ScoreTrendSeries) : Prop where
  frameworks : (series.map ScoreTrendSeries.frameworkId).Nodup
  codes : (series.map ScoreTrendSeries.code).Nodup
  sorted : series.Pairwise fun t u => t.displayName ≤ u.displayName
  points : (series.flatMap seriesPoints).Perm (window.map tracedPoint)
  each : ∀ t ∈ series, SeriesOf d
    (t.frameworkId, window.filter fun r => r.frameworkId = t.frameworkId) t

section

variable {d : ComplianceData} {gs : List (Uuid × List ComplianceScoreSnapshot)}
  {series : List ScoreTrendSeries}

theorem seriesOf_frameworks (h : List.Forall₂ (SeriesOf d) gs series) :
    series.map ScoreTrendSeries.frameworkId = gs.map Prod.fst := by
  induction h with
  | nil => rfl
  | cons hseries _ ih => simp [hseries.frameworkId, ih]

/-- The points of the series are the snapshots of the groups. -/
theorem seriesOf_points (h : List.Forall₂ (SeriesOf d) gs series)
    (hgroups : ∀ g ∈ gs, ∀ r ∈ g.2, r.frameworkId = g.1) :
    (series.flatMap seriesPoints).Perm ((gs.flatMap Prod.snd).map tracedPoint) := by
  induction h with
  | nil => rfl
  | @cons g t gs series hseries _ ih =>
    obtain ⟨hfirst, hrest⟩ := List.forall_mem_cons.mp hgroups
    rw [List.flatMap_cons, List.flatMap_cons, List.map_append]
    apply List.Perm.append _ (ih hrest)
    have hpoints := hseries.points.map fun p => (g.1, p)
    rw [List.map_map] at hpoints
    have htraced : g.2.map ((fun p => (g.1, p)) ∘ pointOf) = g.2.map tracedPoint := by
      apply List.map_congr_left
      intro r hr
      simp [tracedPoint, hfirst r hr]
    rw [seriesPoints, hseries.frameworkId]
    exact htraced ▸ hpoints

/-- A code names one framework, so that series of distinct frameworks have distinct codes. -/
theorem nodup_codes (hids : (series.map ScoreTrendSeries.frameworkId).Nodup)
    (h : ∀ t ∈ series, ∃ f ∈ d.tables.frameworks.rows, f.id = t.frameworkId ∧
      t.code = f.code.value) : (series.map ScoreTrendSeries.code).Nodup := by
  apply List.Nodup.map_on _ hids.of_map
  intro t ht u hu hcode
  obtain ⟨f, hf, hfid, hfcode⟩ := h t ht
  obtain ⟨g, hg, hgid, hgcode⟩ := h u hu
  have hvalue : f.code = g.code :=
    ControlCoverage.value_injective (hfcode.symm.trans (hcode.trans hgcode))
  have hsame : f = g := List.inj_on_of_nodup_map d.codes hf hg hvalue
  apply List.inj_on_of_nodup_map hids ht hu
  rw [← hfid, ← hgid, hsame]

end

theorem sample_month : hours (24 * 30) ≤ 63839750400000001 := by simp [hours]

end NexusEngine.ScoreTrends
