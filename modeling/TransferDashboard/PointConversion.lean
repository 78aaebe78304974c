/-
What `buildPoint` makes of a generic point.

Both of its folds convert one pair after another and throw at the first they
cannot, so it succeeds when all of them can be converted (`buildPoint_eq_ok`);
what comes out are the given pairs, each once and each at its own type.
-/
import TransferDashboard.InfluxDBDriver

namespace TransferDashboard

open Scala Fallible

/-- A field's value, as the value it was given as. -/
def FieldValue.toAny : FieldValue → AnyVal
  | .string s => .string s
  | .double bits => .double bits
  | .long l => .long l
  | .boolean b => .boolean b

/-- The tags a point was given. -/
def TimeSeriesPoint.givenTags (tsPoint : TimeSeriesPoint) : List (String × AnyVal) := tsPoint.tags.getD []

namespace InfluxDBDriver

/-- A tag, if its value is a string. -/
def tag? : String × AnyVal → Option (String × String)
  | (key, .string s) => some (key, s)
  | _ => none

/-- A field, if `addField` takes its value. -/
def field? : String × AnyVal → Option (String × FieldValue)
  | (key, .string s) => some (key, .string s)
  | (key, .double bits) => some (key, .double bits)
  | (key, .long l) => some (key, .long l)
  | (key, .boolean b) => some (key, .boolean b)
  | _ => none

theorem tag?_eq_some {tp : String × AnyVal} {t : String × String} :
    tag? tp = some t ↔ tp = (t.1, .string t.2) := by
  obtain ⟨key, v⟩ := tp
  obtain ⟨key', s⟩ := t
  cases v <;> simp [tag?]

theorem field?_eq_some {fp : String × AnyVal} {f : String × FieldValue} :
    field? fp = some f ↔ fp = (f.1, f.2.toAny) := by
  obtain ⟨key, v⟩ := fp
  obtain ⟨key', w⟩ := f
  cases v <;> cases w <;> simp [field?, FieldValue.toAny]

theorem addTag_eq_ok (p : Point) (tp : String × AnyVal) (p' : Point) :
    addTag p tp = .ok p' ↔ ∃ t, tag? tp = some t ∧ p' = p.addTag t.1 t.2 := by
  obtain ⟨key, v⟩ := tp
  cases v <;> simp [addTag, tag?, eq_comm]

theorem addField_eq_ok (p : Point) (fp : String × AnyVal) (p' : Point) :
    addField p fp = .ok p' ↔ ∃ f, field? fp = some f ∧ p' = p.addField f.1 f.2 := by
  obtain ⟨key, v⟩ := fp
  cases v <;> simp [addField, field?, eq_comm]

/-- Tags added one after another are tags added. -/
theorem foldl_addTag (ts : List (String × String)) (p : Point) :
    ts.foldl (fun p t => p.addTag t.1 t.2) p = { p with tags := ts + p.tags } := by
  induction ts generalizing p with
  | nil => simp
  | cons t ts ih =>
    rw [List.foldl_cons, ih, Point.addTag, ← Multiset.cons_coe, Multiset.cons_add, Multiset.add_cons]

theorem foldl_addField (fs : List (String × FieldValue)) (p : Point) :
    fs.foldl (fun p f => p.addField f.1 f.2) p = { p with fields := fs + p.fields } := by
  induction fs generalizing p with
  | nil => simp
  | cons f fs ih =>
    rw [List.foldl_cons, ih, Point.addField, ← Multiset.cons_coe, Multiset.cons_add, Multiset.add_cons]

theorem buildPoint_eq (tsPoint : TimeSeriesPoint) : buildPoint tsPoint =
    (tsPoint.givenTags.foldlM addTag (Point.new tsPoint.measurement tsPoint.timeStamp) >>=
      fun p => tsPoint.fields.foldlM addField p) := by
  unfold buildPoint TimeSeriesPoint.givenTags
  cases tsPoint.tags <;> rfl

/-- What is built, when something is. -/
theorem buildPoint_eq_ok {tsPoint : TimeSeriesPoint} {p : Point} : buildPoint tsPoint = .ok p ↔
    ∃ (ts : List (String × String)) (fs : List (String × FieldValue)),
      tsPoint.givenTags.map tag? = ts.map some ∧ tsPoint.fields.map field? = fs.map some ∧
      p = ⟨tsPoint.measurement, tsPoint.timeStamp, ts, fs⟩ := by
  rw [buildPoint_eq, bind_eq_ok]
  simp only [foldlM_eq_ok addTag_eq_ok, foldlM_eq_ok addField_eq_ok, foldl_addTag, foldl_addField]
  refine ⟨fun h => ?_, fun h => ?_⟩
  · obtain ⟨_, ⟨ts, hts, rfl⟩, fs, hfs, rfl⟩ := h
    exact ⟨ts, fs, hts, hfs, by simp [Point.new]⟩
  · obtain ⟨ts, fs, hts, hfs, rfl⟩ := h
    exact ⟨_, ⟨ts, hts, rfl⟩, fs, hfs, by simp [Point.new]⟩

theorem buildPoint_returns_iff (tsPoint : TimeSeriesPoint) : (∃ p, buildPoint tsPoint = .ok p) ↔
    (∀ t ∈ tsPoint.givenTags, ∃ s, t.2 = .string s) ∧ ∀ f ∈ tsPoint.fields, ∃ v : FieldValue, f.2 = v.toAny := by
  have htag : ∀ tp t, tag? tp = some t ↔ tp = (t.1, AnyVal.string t.2) := fun _ _ => tag?_eq_some
  have hfield : ∀ fp f, field? fp = some f ↔ fp = (f.1, f.2.toAny) := fun _ _ => field?_eq_some
  have hsplit : (∃ p, buildPoint tsPoint = .ok p) ↔
      (∃ ts : List (String × String), tsPoint.givenTags.map tag? = ts.map some) ∧
        ∃ fs : List (String × FieldValue), tsPoint.fields.map field? = fs.map some := by
    simp only [buildPoint_eq_ok]
    refine ⟨fun h => ?_, fun h => ?_⟩
    · obtain ⟨_, ts, fs, hts, hfs, -⟩ := h
      exact ⟨⟨ts, hts⟩, fs, hfs⟩
    · obtain ⟨⟨ts, hts⟩, fs, hfs⟩ := h
      exact ⟨_, ts, fs, hts, hfs, rfl⟩
  rw [hsplit, exists_map_eq_some htag, exists_map_eq_some hfield]
  simp only [Prod.exists, Prod.ext_iff, exists_and_left, exists_and_right, exists_eq', true_and]

/-- What is built holds what was given, and nothing else. -/
theorem buildPoint_keeps {tsPoint : TimeSeriesPoint} {p : Point} (h : buildPoint tsPoint = .ok p) :
    p.measurement = tsPoint.measurement ∧ p.timestamp = tsPoint.timeStamp ∧
      p.tags.map (fun t => (t.1, AnyVal.string t.2)) = (tsPoint.givenTags : Multiset (String × AnyVal)) ∧
      p.fields.map (fun f => (f.1, f.2.toAny)) = (tsPoint.fields : Multiset (String × AnyVal)) := by
  obtain ⟨ts, fs, hts, hfs, rfl⟩ := buildPoint_eq_ok.1 h
  refine ⟨rfl, rfl, ?_, ?_⟩
  · rw [Multiset.map_coe, map_of_map_eq_some (fun _ _ => tag?_eq_some) hts]
  · rw [Multiset.map_coe, map_of_map_eq_some (fun _ _ => field?_eq_some) hfs]

/-- **Faithful conversion.** A point can be built exactly when every tag is a
string and every field has a type `addField` takes; it then has the given
measurement and timestamp, its tags are the given tags, and its fields the
given fields at their own types, each as often as given. -/
theorem buildPoint_faithful (tsPoint : TimeSeriesPoint) :
    ((∃ p, buildPoint tsPoint = .ok p) ↔
      (∀ t ∈ tsPoint.givenTags, ∃ s, t.2 = .string s) ∧ ∀ f ∈ tsPoint.fields, ∃ v : FieldValue, f.2 = v.toAny) ∧
    ∀ p, buildPoint tsPoint = .ok p → p.measurement = tsPoint.measurement ∧ p.timestamp = tsPoint.timeStamp ∧
      p.tags.map (fun t => (t.1, AnyVal.string t.2)) = (tsPoint.givenTags : Multiset (String × AnyVal)) ∧
      p.fields.map (fun f => (f.1, f.2.toAny)) = (tsPoint.fields : Multiset (String × AnyVal)) :=
  ⟨buildPoint_returns_iff tsPoint, fun _ hp => buildPoint_keeps hp⟩

end InfluxDBDriver

end TransferDashboard
