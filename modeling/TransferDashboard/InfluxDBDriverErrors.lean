/-
Which exception an insert ends in, and when.

A point alone is refused for the first thing that is wrong with it: a tag,
then a field, then its precision, then the connection (`PointRefused`). Of a
list of points it is not said what is wrong with which, an empty one has no
precision to agree on, and a precision that is unsupported is an error only
when all of them are (`BatchRefused`). `insertPoints_refused_iff` is that
these are all the cases, and that what is not refused is written.
-/
import TransferDashboard.InfluxDBDriverFacts
import TransferDashboard.PointConversion

namespace TransferDashboard

open Scala Fallible

namespace InfluxDBDriver

/-- A tag that is no string. -/
def BadTag (p : TimeSeriesPoint) : Prop := ∃ t ∈ p.givenTags, ∀ s, t.2 ≠ .string s

/-- A field of a type `addField` does not take. -/
def BadField (p : TimeSeriesPoint) : Prop := ∃ f ∈ p.fields, ∀ v : FieldValue, f.2 ≠ v.toAny

theorem addTag_eq_error (p : Point) (tp : String × AnyVal) (e : Throwable) (h : addTag p tp = .error e) :
    e = wrongTypeForTag := by
  unfold addTag at h
  split at h <;> simp_all

theorem addField_eq_error (p : Point) (fp : String × AnyVal) (e : Throwable) (h : addField p fp = .error e) :
    e = wrongTypeForField := by
  unfold addField at h
  split at h <;> simp_all

theorem addTags_returns_iff {tags : List (String × AnyVal)} {p : Point} :
    (∃ p', tags.foldlM addTag p = .ok p') ↔ ¬ ∃ t ∈ tags, ∀ s, t.2 ≠ .string s := by
  have hconv : ∀ tp t, tag? tp = some t ↔ tp = (t.1, AnyVal.string t.2) := fun _ _ => tag?_eq_some
  rw [foldlM_returns_iff addTag_eq_ok hconv]
  simp only [Prod.exists, Prod.ext_iff, exists_and_left]
  grind

theorem addFields_returns_iff {fields : List (String × AnyVal)} {p : Point} :
    (∃ p', fields.foldlM addField p = .ok p') ↔ ¬ ∃ f ∈ fields, ∀ v : FieldValue, f.2 ≠ v.toAny := by
  have hconv : ∀ fp f, field? fp = some f ↔ fp = (f.1, f.2.toAny) := fun _ _ => field?_eq_some
  rw [foldlM_returns_iff addField_eq_ok hconv]
  simp only [Prod.exists, Prod.ext_iff, exists_and_left]
  grind

/-- What is thrown while a point is built: the tags come first. -/
theorem buildPoint_eq_error {p : TimeSeriesPoint} {e : Throwable} : buildPoint p = .error e ↔
    (BadTag p ∧ e = wrongTypeForTag) ∨ (¬ BadTag p ∧ BadField p ∧ e = wrongTypeForField) := by
  rw [buildPoint_eq]
  cases htags : p.givenTags.foldlM addTag (Point.new p.measurement p.timeStamp) with
  | error e' =>
    have hbad : BadTag p := by
      by_contra hgood
      obtain ⟨p', hp'⟩ := addTags_returns_iff.2 hgood
      rw [htags] at hp'
      cases hp'
    have he := foldlM_eq_error addTag_eq_error htags
    simp [bind, Except.bind, hbad, he, eq_comm]
  | ok p' =>
    have hgood : ¬ BadTag p := addTags_returns_iff.1 ⟨p', htags⟩
    cases hfields : p.fields.foldlM addField p' with
    | error e' =>
      have hbad : BadField p := by
        by_contra hgood
        obtain ⟨p'', hp''⟩ := addFields_returns_iff.2 hgood
        rw [hfields] at hp''
        cases hp''
      have he := foldlM_eq_error addField_eq_error hfields
      simp [bind, Except.bind, hfields, hgood, hbad, he, eq_comm]
    | ok p'' =>
      have hgood' : ¬ BadField p := addFields_returns_iff.1 ⟨p'', hfields⟩
      simp [bind, Except.bind, hfields, hgood, hgood']

theorem buildPoint_returns {p : TimeSeriesPoint} : (∃ point, buildPoint p = .ok point) ↔ ¬ BadTag p ∧ ¬ BadField p := by
  rw [buildPoint_returns_iff]
  simp [BadTag, BadField]

theorem buildPrecision_eq_error {p : TimeSeriesPoint} {e : Throwable} :
    buildPrecision p = .error e ↔ p.precision = .days ∧ e = unsupportedPrecision := by
  unfold buildPrecision
  cases p.precision <;> simp [eq_comm]

/-! ## Refusals -/

/-- Why a point alone is refused. -/
inductive PointRefused (db : InfluxDBDriver) (p : TimeSeriesPoint) : Throwable → Prop
  | tag (htag : BadTag p) : PointRefused db p wrongTypeForTag
  | field (htag : ¬ BadTag p) (hfield : BadField p) : PointRefused db p wrongTypeForField
  | precision (htag : ¬ BadTag p) (hfield : ¬ BadField p) (hdays : p.precision = .days) :
      PointRefused db p unsupportedPrecision
  | connection (htag : ¬ BadTag p) (hfield : ¬ BadField p) (hdays : p.precision ≠ .days) {e : Throwable}
      (hdb : db.dbFuture = .error e) : PointRefused db p e

/-- Why a list of points is refused. -/
inductive BatchRefused (db : InfluxDBDriver) (ps : List TimeSeriesPoint) : Throwable → Prop
  | notGood (hbad : ∃ p ∈ ps, BadTag p ∨ BadField p) : BatchRefused db ps notAllPointsAreGood
  | precisions (hgood : ∀ p ∈ ps, ¬ BadTag p ∧ ¬ BadField p) (hmany : ¬ ∃ q, OnlyPrecision ps q) :
      BatchRefused db ps precisionsMustBeTheSame
  | connection (hgood : ∀ p ∈ ps, ¬ BadTag p ∧ ¬ BadField p) (hone : ∃ q, OnlyPrecision ps q) {e : Throwable}
      (hdb : db.dbFuture = .error e) : BatchRefused db ps e

def Refused (db : InfluxDBDriver) : List TimeSeriesPoint → Throwable → Prop
  | [p], e => PointRefused db p e
  | ps, e => BatchRefused db ps e

variable {db : InfluxDBDriver}

theorem onDb_eq_failed {r : WriteRequest} {e : Throwable} : db.onDb r = .failed e ↔ db.dbFuture = .error e := by
  unfold onDb
  split
  next hdb => simp [hdb, Future.request_ne_failed]
  next hdb => simp [hdb, Future.failed_inj]

theorem onDb_asks (r : WriteRequest) : (∃ e, db.onDb r = .failed e) ∨ ∃ r', db.onDb r = .request r' := by
  unfold onDb
  split
  · exact .inr ⟨r, rfl⟩
  next e _ => exact .inl ⟨e, rfl⟩

theorem insertPoint_refused_iff {p : TimeSeriesPoint} {e : Throwable} :
    db.insertPoint p = .failed e ↔ PointRefused db p e := by
  unfold insertPoint
  split
  next e' hpoint =>
    rw [Future.failed_inj]
    rcases buildPoint_eq_error.1 hpoint with ⟨htag, rfl⟩ | ⟨htag, hfield, rfl⟩
    · refine ⟨fun h => h ▸ .tag htag, fun h => ?_⟩
      cases h <;> first | rfl | contradiction
    · refine ⟨fun h => h ▸ .field htag hfield, fun h => ?_⟩
      cases h <;> first | rfl | contradiction
  next point hpoint =>
    obtain ⟨htag, hfield⟩ := buildPoint_returns.1 ⟨point, hpoint⟩
    split
    next e' hprecision =>
      obtain ⟨hdays, rfl⟩ := buildPrecision_eq_error.1 hprecision
      rw [Future.failed_inj]
      refine ⟨fun h => h ▸ .precision htag hfield hdays, fun h => ?_⟩
      cases h <;> first | rfl | contradiction
    next q hprecision =>
      have hdays : p.precision ≠ .days := by
        intro hdays
        rw [buildPrecision_eq_error.2 ⟨hdays, rfl⟩] at hprecision
        cases hprecision
      rw [onDb_eq_failed]
      refine ⟨fun h => .connection htag hfield hdays h, fun h => ?_⟩
      cases h <;> first | assumption | contradiction

/-- The points that all convert. -/
theorem allGood_iff {ps : List TimeSeriesPoint} : AllGood ps ↔ ∀ p ∈ ps, ¬ BadTag p ∧ ¬ BadField p := by
  simp only [AllGood, buildPoint_returns]

theorem insertBatch_refused_iff {ps : List TimeSeriesPoint} {e : Throwable} :
    db.insertBatch ps = .failed e ↔ BatchRefused db ps e := by
  unfold insertBatch
  simp only [bne_iff_ne, ne_eq]
  split
  next hlen =>
    have hbad : ¬ AllGood ps := fun h => hlen ((filterMap_success?_length buildPoint ps).2 h).symm
    rw [allGood_iff] at hbad
    rw [Future.failed_inj]
    refine ⟨fun h => h ▸ .notGood (by grind), fun h => ?_⟩
    cases h <;> first | rfl | contradiction
  next hlen =>
    have hgood : AllGood ps := (filterMap_success?_length buildPoint ps).1 (not_not.1 hlen).symm
    rw [allGood_iff] at hgood
    split
    next q hq =>
      have hone : ∃ q, OnlyPrecision ps q := ⟨q, precisSet_eq_singleton.1 hq⟩
      rw [onDb_eq_failed]
      refine ⟨fun h => .connection hgood hone h, fun h => ?_⟩
      cases h with
      | notGood hbad => grind
      | precisions _ hmany => exact absurd hone hmany
      | connection _ _ hdb => exact hdb
    next hq =>
      have hmany : ¬ ∃ q, OnlyPrecision ps q := fun ⟨q, hone⟩ => hq q (precisSet_eq_singleton.2 hone)
      rw [Future.failed_inj]
      refine ⟨fun h => h ▸ .precisions hgood hmany, fun h => ?_⟩
      cases h with
      | notGood hbad => grind
      | precisions => rfl
      | connection _ hone => exact absurd hone hmany

/-! ## Every list of points -/

/-- A list is handed to the database in one request, or it failed before that. -/
theorem insertPoints_asks (db : InfluxDBDriver) (ps : List TimeSeriesPoint) :
    (∃ e, db.insertPoints ps = .failed e) ∨ ∃ r, db.insertPoints ps = .request r := by
  unfold insertPoints
  split
  · unfold insertPoint
    split
    · exact .inl ⟨_, rfl⟩
    · split
      · exact .inl ⟨_, rfl⟩
      · exact onDb_asks _
  · unfold insertBatch
    simp only
    split
    · exact .inl ⟨_, rfl⟩
    · split
      · exact onDb_asks _
      · exact .inl ⟨_, rfl⟩

/-- **Why a list of points is refused.** With whatever connection, a list
fails at once with an exception exactly when `Refused` gives that exception
for it, which it does at most once; every other list is written in one
request. -/
theorem insertPoints_refused_iff (db : InfluxDBDriver) (ps : List TimeSeriesPoint) :
    (∀ e, db.insertPoints ps = .failed e ↔ Refused db ps e) ∧
      (∀ e e', Refused db ps e → Refused db ps e' → e = e') ∧
      ((∀ e, ¬ Refused db ps e) ↔ ∃ r, db.insertPoints ps = .request r) := by
  have hiff : ∀ e, db.insertPoints ps = .failed e ↔ Refused db ps e := by
    intro e
    match ps with
    | [p] => exact insertPoint_refused_iff
    | [] =>
      change db.insertBatch [] = _ ↔ BatchRefused db [] e
      exact insertBatch_refused_iff
    | p :: p' :: ps =>
      change db.insertBatch (p :: p' :: ps) = _ ↔ BatchRefused db (p :: p' :: ps) e
      exact insertBatch_refused_iff
  refine ⟨hiff, fun e e' he he' => ?_, fun hnot => ?_, fun h e he => ?_⟩
  · have heq := (hiff e).2 he
    rw [(hiff e').2 he'] at heq
    exact (Future.failed_inj.1 heq).symm
  · rcases insertPoints_asks db ps with ⟨e, he⟩ | hr
    · exact absurd ((hiff e).1 he) (hnot e)
    · exact hr
  · obtain ⟨r, hr⟩ := h
    rw [(hiff e).2 he] at hr
    exact Future.request_ne_failed r e hr.symm

/-- An empty list is refused for having no precision. -/
example (db : InfluxDBDriver) : Refused db [] precisionsMustBeTheSame :=
  .precisions (by simp) (by simp [OnlyPrecision])

end InfluxDBDriver

end TransferDashboard
