/-
JSON values and the readers and writers composed over them, after play-json.

A reader gives a value or the list of everything wrong with the JSON, each
error at its path: two readers of one value are combined so that both report
(`JsResult`'s `Seq`). A missing key and `null` are the same to a nullable
reader, and a nullable writer writes no key for `none`.

The text format itself is a parameter (`PlayJson`): a parser that may throw
and a printer, of which `PlayJson.Documented` says that the first undoes the
second.
-/
import Mathlib
import TransferDashboard.Lib.Future

namespace Json

open Scala

/-- A decimal number `unscaled * 10 ^ -scale` with no trailing zero among
its decimals, so that equal numbers are equal as values. -/
structure BigDecimal where
  unscaled : Int
  scale : Nat
  stripped : scale = 0 ∨ unscaled % 10 ≠ 0
  deriving DecidableEq, Repr

namespace BigDecimal

def ofInt (n : Int) : BigDecimal := ⟨n, 0, .inl rfl⟩

/-- An integer in the 32-bit range. -/
def isValidInt (n : BigDecimal) : Bool := n.scale = 0 ∧ -2 ^ 31 ≤ n.unscaled ∧ n.unscaled < 2 ^ 31

def toInt (n : BigDecimal) : Int32 := Int32.ofInt n.unscaled

theorem isValidInt_iff {n : BigDecimal} : n.isValidInt = true ↔ ∃ i : Int32, n = ofInt i.toInt := by
  simp only [isValidInt, decide_eq_true_eq]
  refine ⟨fun h => ?_, fun h => ?_⟩
  · obtain ⟨hs, hlo, hhi⟩ := h
    refine ⟨Int32.ofInt n.unscaled, ?_⟩
    obtain ⟨u, s, h⟩ := n
    simp only at hs hlo hhi
    subst hs
    simp only [ofInt, Int32.toInt_ofInt_of_le hlo hhi]
  · obtain ⟨i, rfl⟩ := h
    exact ⟨rfl, i.le_toInt, i.toInt_lt⟩

@[simp] theorem toInt_ofInt (i : Int32) : (ofInt i.toInt).toInt = i := Int32.ofInt_toInt i

theorem ofInt_injective {m n : Int} (h : ofInt m = ofInt n) : m = n := by
  simpa [ofInt] using h

end BigDecimal

inductive JsValue where
  | null
  | boolean (b : Bool)
  | number (value : BigDecimal)
  | string (value : String)
  | array (value : List JsValue)
  | object (fields : List (String × JsValue))

namespace JsValue

/-- The value of a key: the last one given, as when the fields are put into
a map one after another. -/
def field (fields : List (String × JsValue)) (key : String) : Option JsValue :=
  fields.foldl (fun v f => if f.1 = key then some f.2 else v) none

/-- `json \ key`. -/
def get? : JsValue → String → Option JsValue
  | .object fields, key => field fields key
  | _, _ => none

@[simp] theorem get?_object (fields : List (String × JsValue)) (key : String) :
    (object fields).get? key = field fields key := rfl

/-- The values there are: no object holds a key twice. -/
inductive Wf : JsValue → Prop
  | null : Wf .null
  | boolean (b : Bool) : Wf (.boolean b)
  | number (n : BigDecimal) : Wf (.number n)
  | string (s : String) : Wf (.string s)
  | array {xs : List JsValue} : (∀ x ∈ xs, Wf x) → Wf (.array xs)
  | object {fields : List (String × JsValue)} : (fields.map Prod.fst).Nodup → (∀ f ∈ fields, Wf f.2) →
      Wf (.object fields)

theorem get?_eq_some {json v : JsValue} {key : String} (h : json.get? key = some v) :
    ∃ fields, json = .object fields := by
  cases json <;> simp_all [get?]

end JsValue

/-! ## Reading -/

abbrev JsPath := List String

/-- A value read, or what is wrong and where. -/
inductive JsResult (α : Type) where
  | success (value : α)
  | error (errors : List (JsPath × String))

namespace JsResult

variable {α β : Type}

def map (f : α → β) : JsResult α → JsResult β
  | .success a => .success (f a)
  | .error es => .error es

/-- The errors of both sides are kept. -/
def seq (f : JsResult (α → β)) (x : JsResult α) : JsResult β :=
  match f, x with
  | .success f, .success a => .success (f a)
  | .error es, .success _ => .error es
  | .success _, .error es => .error es
  | .error es, .error es' => .error (es ++ es')

instance : Applicative JsResult where
  pure := .success
  map := map
  seq f x := seq f (x ())

def repath (key : String) : JsResult α → JsResult α
  | .success a => .success a
  | .error es => .error (es.map fun e => (key :: e.1, e.2))

def asOpt : JsResult α → Option α
  | .success a => some a
  | .error _ => none

@[simp] theorem map_eq_success {f : α → β} {x : JsResult α} {b : β} :
    (f <$> x) = .success b ↔ ∃ a, x = .success a ∧ f a = b := by
  cases x <;> simp [Functor.map, map]

@[simp] theorem seq_eq_success {f : JsResult (α → β)} {x : JsResult α} {b : β} :
    (f <*> x) = .success b ↔ ∃ g a, f = .success g ∧ x = .success a ∧ g a = b := by
  cases f <;> cases x <;> simp [Seq.seq, seq]

@[simp] theorem repath_eq_success {x : JsResult α} {key : String} {a : α} :
    x.repath key = .success a ↔ x = .success a := by
  cases x <;> simp [repath]

@[simp] theorem asOpt_eq_some {x : JsResult α} {a : α} : x.asOpt = some a ↔ x = .success a := by
  cases x <;> simp [asOpt]

end JsResult

abbrev Reads (α : Type) := JsValue → JsResult α

namespace Reads

variable {α : Type}

def string : Reads String
  | .string s => .success s
  | _ => .error [([], "error.expected.jsstring")]

def int : Reads Int32
  | .number n => if n.isValidInt then .success n.toInt else .error [([], "error.expected.int")]
  | _ => .error [([], "error.expected.jsnumber")]

/-- `(__ \ key).read`. -/
def path (key : String) (r : Reads α) : Reads α := fun json =>
  match json.get? key with
  | some v => (r v).repath key
  | none => .error [([key], "error.path.missing")]

/-- `(__ \ key).readNullable`. -/
def pathNullable (key : String) (r : Reads α) : Reads (Option α) := fun json =>
  match json.get? key with
  | none => .success none
  | some .null => .success none
  | some v => some <$> (r v).repath key

@[simp] theorem string_eq_success {json : JsValue} {s : String} :
    string json = .success s ↔ json = .string s := by
  cases json <;> simp [string]

@[simp] theorem int_eq_success {json : JsValue} {i : Int32} :
    int json = .success i ↔ json = .number (.ofInt i.toInt) := by
  cases json with
  | number n =>
    simp only [int, JsValue.number.injEq]
    split
    next hv =>
      obtain ⟨j, rfl⟩ := BigDecimal.isValidInt_iff.1 hv
      simp only [BigDecimal.toInt_ofInt, JsResult.success.injEq]
      constructor
      · rintro rfl; rfl
      · intro h; exact Int32.toInt_inj.1 (BigDecimal.ofInt_injective h)
    next hv =>
      simp only [reduceCtorEq, false_iff]
      rintro rfl
      exact hv (BigDecimal.isValidInt_iff.2 ⟨i, rfl⟩)
  | _ => simp [int]

@[simp] theorem path_eq_success {key : String} {r : Reads α} {json : JsValue} {a : α} :
    path key r json = .success a ↔ ∃ v, json.get? key = some v ∧ r v = .success a := by
  unfold path
  cases json.get? key <;> simp

/-- A nullable field: absent or `null`, or read, when the reader takes no `null` itself. -/
theorem pathNullable_eq_success {key : String} {r : Reads α} {json : JsValue} {o : Option α}
    (hnull : ∀ a, r .null ≠ .success a) :
    pathNullable key r json = .success o ↔
      ((json.get? key = none ∨ json.get? key = some .null) ∧ o = none) ∨
        ∃ v a, json.get? key = some v ∧ r v = .success a ∧ o = some a := by
  unfold pathNullable
  cases hv : json.get? key with
  | none => simp [eq_comm]
  | some v =>
    by_cases hn : v = .null
    · subst hn
      simp [hnull, eq_comm]
    · have hm : (match (some v : Option JsValue) with
          | none => JsResult.success none
          | some .null => .success none
          | some v => some <$> (r v).repath key) = some <$> (r v).repath key := by
        cases v <;> simp_all
      rw [hm]
      simp [hn, eq_comm]

end Reads

/-! ## Writing -/

/-- `(__ \ key).write`: the fields it adds to the object. -/
def write (key : String) (v : JsValue) : List (String × JsValue) := [(key, v)]

/-- `(__ \ key).writeNullable`. -/
def writeNullable (key : String) : Option JsValue → List (String × JsValue)
  | some v => [(key, v)]
  | none => []

/-! ## The text format -/

/-- The parser and the printer of JSON text. -/
structure PlayJson where
  parse : String → Try JsValue
  stringify : JsValue → String

/-- What is assumed of the text format: a printed value parses to itself. -/
structure PlayJson.Documented (J : PlayJson) : Prop where
  parse_stringify : ∀ v : JsValue, v.Wf → J.parse (J.stringify v) = .ok v

theorem PlayJson.Documented.stringify_injective {J : PlayJson} (hJ : J.Documented) {v w : JsValue}
    (hv : v.Wf) (hw : w.Wf) (h : J.stringify v = J.stringify w) : v = w := by
  have hp := hJ.parse_stringify v hv
  rw [h, hJ.parse_stringify w hw, Except.ok.injEq] at hp
  exact hp.symm

end Json
