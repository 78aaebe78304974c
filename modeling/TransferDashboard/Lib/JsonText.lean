/-
JSON text, printed and parsed: an instance of the text format of
`Lib.PlayJson` that has what is documented of it (`jsonText_documented`).

Values are printed without white space, strings with the escapes JSON
requires, and a number that is not an integer with an exponent. The parser
reads this form. It is bounded by the length of the text, and every value
printed is read back within that bound (`readValue_print`), whatever comes
after it that can follow a value.
-/
import TransferDashboard.Lib.Digits
import TransferDashboard.Lib.PlayJson

namespace Json.Text

open Scala Digits

/-! ## Strings -/

/-- Characters with a short escape, and its letter. -/
def shortEscape : Char → Option Char
  | '"' => some '"'
  | '\\' => some '\\'
  | '\x08' => some 'b'
  | '\x0c' => some 'f'
  | '\n' => some 'n'
  | '\r' => some 'r'
  | '\t' => some 't'
  | _ => none

def hexDigit (n : Nat) : Char := (Nat.digitChar n).toUpper

def escapeChar (c : Char) : List Char :=
  match shortEscape c with
  | some e => ['\\', e]
  | none => if c.toNat < 32 then ['\\', 'u', '0', '0', hexDigit (c.toNat / 16), hexDigit (c.toNat % 16)] else [c]

def hexValue? (c : Char) : Option Nat :=
  if c.isDigit then some (c.toNat - '0'.toNat)
  else if 'A' ≤ c ∧ c ≤ 'F' then some (c.toNat - 'A'.toNat + 10)
  else if 'a' ≤ c ∧ c ≤ 'f' then some (c.toNat - 'a'.toNat + 10)
  else none

def unescape : Char → Option Char
  | '"' => some '"'
  | '\\' => some '\\'
  | '/' => some '/'
  | 'b' => some '\x08'
  | 'f' => some '\x0c'
  | 'n' => some '\n'
  | 'r' => some '\r'
  | 't' => some '\t'
  | _ => none

/-- The character of four hexadecimal digits. -/
def unicode? (a b c d : Char) : Option Char := do
  let a ← hexValue? a
  let b ← hexValue? b
  let c ← hexValue? c
  let d ← hexValue? d
  some (Char.ofNat (((a * 16 + b) * 16 + c) * 16 + d))

/-- The rest of a string after its opening quote, and the rest of the text. -/
def readString : List Char → Option (List Char × List Char)
  | [] => none
  | c :: r =>
    if c = '"' then some ([], r)
    else if c = '\\' then
      match r with
      | 'u' :: a :: b :: c :: d :: r => do
        let e ← unicode? a b c d
        (readString r).map fun x => (e :: x.1, x.2)
      | e :: r => do
        let e ← unescape e
        (readString r).map fun x => (e :: x.1, x.2)
      | [] => none
    else if c.toNat < 32 then none
    else (readString r).map fun x => (c :: x.1, x.2)

def printString (s : String) : List Char := '"' :: (s.toList.flatMap escapeChar ++ ['"'])

theorem hexValue?_hexDigit : ∀ n < 16, hexValue? (hexDigit n) = some n := by decide

theorem unescape_shortEscape {c e : Char} (h : shortEscape c = some e) : unescape e = some c ∧ e ≠ 'u' := by
  unfold shortEscape at h
  split at h <;> cases h <;> exact ⟨rfl, by decide⟩

theorem ne_of_no_shortEscape {c : Char} (h : shortEscape c = none) : c ≠ '"' ∧ c ≠ '\\' := by
  constructor
  · rintro rfl
    cases h
  · rintro rfl
    cases h

theorem unicode?_hexDigits {c : Char} (hc : c.toNat < 32) :
    unicode? '0' '0' (hexDigit (c.toNat / 16)) (hexDigit (c.toNat % 16)) = some c := by
  have h₀ : hexValue? '0' = some 0 := rfl
  have h₁ := hexValue?_hexDigit (c.toNat / 16) (by omega)
  have h₂ := hexValue?_hexDigit (c.toNat % 16) (by omega)
  have hval : ((0 * 16 + 0) * 16 + c.toNat / 16) * 16 + c.toNat % 16 = c.toNat := by omega
  simp only [unicode?, h₀, h₁, h₂, Option.bind_eq_bind, Option.bind_some, hval, Char.ofNat_toNat]

theorem readString_short {e c : Char} (h : unescape e = some c) (hu : e ≠ 'u') (r : List Char) :
    readString ('\\' :: e :: r) = (readString r).map fun x => (c :: x.1, x.2) := by
  rw [readString, if_neg (by decide), if_pos rfl, h]
  · rfl
  · intro a b c d r' heq
    exact absurd heq hu

theorem readString_escapeChar (c : Char) (r : List Char) :
    readString (escapeChar c ++ r) = (readString r).map fun x => (c :: x.1, x.2) := by
  unfold escapeChar
  cases he : shortEscape c with
  | some e =>
    obtain ⟨hun, hu⟩ := unescape_shortEscape he
    exact readString_short hun hu r
  | none =>
    obtain ⟨hquote, hslash⟩ := ne_of_no_shortEscape he
    by_cases hc : c.toNat < 32
    · simp only [if_pos hc, List.cons_append, List.nil_append]
      rw [readString, if_neg (by decide), if_pos rfl]
      simp only [unicode?_hexDigits hc]
      rfl
    · simp only [if_neg hc, List.cons_append, List.nil_append]
      rw [readString.eq_def]
      simp only [if_neg hquote, if_neg hslash, if_neg hc]

theorem readString_escaped (cs r : List Char) : readString (cs.flatMap escapeChar ++ '"' :: r) = some (cs, r) := by
  induction cs with
  | nil =>
    rw [List.flatMap_nil, List.nil_append, readString.eq_def]
    rfl
  | cons c cs ih =>
    rw [List.flatMap_cons, List.append_assoc, readString_escapeChar, ih]
    rfl

/-! ## Numbers -/

/-- `unscaled`, or `unscaled e-scale`. -/
def printNumber (n : BigDecimal) : List Char :=
  printInt n.unscaled ++ if n.scale = 0 then [] else 'e' :: '-' :: printNat n.scale

def readNumber (cs : List Char) : Option (BigDecimal × List Char) :=
  (readInt cs).bind fun x =>
    match x.2 with
    | 'e' :: '-' :: r => (readNat r).bind fun y =>
      if h : y.1 = 0 ∨ x.1 % 10 ≠ 0 then some (⟨x.1, y.1, h⟩, y.2) else none
    | r => some (.ofInt x.1, r)

/-- Text that can follow a value. -/
def Follow (r : List Char) : Prop := ∀ c ∈ r.head?, c = ',' ∨ c = ']' ∨ c = '\x7d'

theorem Follow.noDigit {r : List Char} (h : Follow r) : NoDigit r := by
  intro c hc
  rcases h c hc with rfl | rfl | rfl <;> rfl

theorem follow_nil : Follow [] := by
  intro c hc
  cases hc

theorem follow_cons {c : Char} {r : List Char} (h : c = ',' ∨ c = ']' ∨ c = '\x7d') : Follow (c :: r) := by
  intro d hd
  rw [List.head?_cons, Option.mem_def, Option.some.injEq] at hd
  rw [← hd]
  exact h

theorem readNumber_printNumber (n : BigDecimal) {r : List Char} (hr : Follow r) :
    readNumber (printNumber n ++ r) = some (n, r) := by
  obtain ⟨u, s, hs⟩ := n
  by_cases h0 : s = 0
  · subst h0
    simp only [printNumber, if_true, List.append_nil, readNumber, readInt_printInt u hr.noDigit, Option.bind_some]
    split
    next => rcases hr 'e' rfl with h | h | h <;> cases h
    · rfl
  · have hexp : NoDigit ('e' :: '-' :: (printNat s ++ r)) := noDigit_cons rfl
    simp only [printNumber, if_neg h0, readNumber, List.append_assoc, List.cons_append, readInt_printInt u hexp,
      Option.bind_some, readNat_printNat s hr.noDigit, dif_pos hs]

/-! ## Values -/

mutual

def print : JsValue → List Char
  | .null => ['n', 'u', 'l', 'l']
  | .boolean true => ['t', 'r', 'u', 'e']
  | .boolean false => ['f', 'a', 'l', 's', 'e']
  | .number n => printNumber n
  | .string s => printString s
  | .array [] => ['[', ']']
  | .array (x :: xs) => '[' :: (print x ++ printElems xs)
  | .object [] => ['\x7b', '\x7d']
  | .object ((key, x) :: fields) => '\x7b' :: (printString key ++ ':' :: (print x ++ printFields fields))

/-- The elements after the first, and the end of the array. -/
def printElems : List JsValue → List Char
  | [] => [']']
  | x :: xs => ',' :: (print x ++ printElems xs)

/-- The fields after the first, and the end of the object. -/
def printFields : List (String × JsValue) → List Char
  | [] => ['\x7d']
  | (key, x) :: fields => ',' :: (printString key ++ ':' :: (print x ++ printFields fields))

end

mutual

def readValue : Nat → List Char → Option (JsValue × List Char)
  | 0, _ => none
  | fuel + 1, cs =>
    match cs with
    | 'n' :: 'u' :: 'l' :: 'l' :: r => some (.null, r)
    | 't' :: 'r' :: 'u' :: 'e' :: r => some (.boolean true, r)
    | 'f' :: 'a' :: 'l' :: 's' :: 'e' :: r => some (.boolean false, r)
    | '"' :: r => (readString r).map fun x => (.string (String.ofList x.1), x.2)
    | '[' :: ']' :: r => some (.array [], r)
    | '[' :: r => (readValue fuel r).bind fun x => (readElems fuel x.2).map fun xs => (.array (x.1 :: xs.1), xs.2)
    | '\x7b' :: '\x7d' :: r => some (.object [], r)
    | '\x7b' :: r => (readField fuel r).bind fun f =>
      (readFields fuel f.2).map fun fs => (.object (f.1 :: fs.1), fs.2)
    | cs => (readNumber cs).map fun x => (.number x.1, x.2)

def readElems : Nat → List Char → Option (List JsValue × List Char)
  | 0, _ => none
  | fuel + 1, cs =>
    match cs with
    | ']' :: r => some ([], r)
    | ',' :: r => (readValue fuel r).bind fun x => (readElems fuel x.2).map fun xs => (x.1 :: xs.1, xs.2)
    | _ => none

def readField : Nat → List Char → Option ((String × JsValue) × List Char)
  | 0, _ => none
  | fuel + 1, cs =>
    match cs with
    | '"' :: r => (readString r).bind fun key =>
      match key.2 with
      | ':' :: r => (readValue fuel r).map fun x => ((String.ofList key.1, x.1), x.2)
      | _ => none
    | _ => none

def readFields : Nat → List Char → Option (List (String × JsValue) × List Char)
  | 0, _ => none
  | fuel + 1, cs =>
    match cs with
    | '\x7d' :: r => some ([], r)
    | ',' :: r => (readField fuel r).bind fun f => (readFields fuel f.2).map fun fs => (f.1 :: fs.1, fs.2)
    | _ => none

end

/-! ## Values are read back -/

theorem printNumber_eq_cons (n : BigDecimal) : ∃ c r, printNumber n = c :: r ∧ (c = '-' ∨ c.isDigit = true) := by
  obtain ⟨c, r, h, hc⟩ := printInt_eq_cons n.unscaled
  exact ⟨c, _, by rw [printNumber, h, List.cons_append], hc⟩

theorem readValue_of_number {fuel : Nat} {c : Char} {cs : List Char} (hc : c = '-' ∨ c.isDigit = true) :
    readValue (fuel + 1) (c :: cs) = (readNumber (c :: cs)).map fun x => (.number x.1, x.2) := by
  rw [readValue.eq_def]
  simp only
  split <;> first | rfl | (rename_i h; rw [List.cons.injEq] at h; rw [h.1] at hc; rcases hc with h | h <;> cases h)

/-- No value begins as an array ends. -/
theorem print_eq_cons (v : JsValue) : ∃ c r, print v = c :: r ∧ c ≠ ']' := by
  cases v with
  | null => exact ⟨'n', _, print.eq_1, by decide⟩
  | boolean b => cases b <;> exact ⟨_, _, by rw [print], by decide⟩
  | number n =>
    obtain ⟨c, r, h, hc⟩ := printNumber_eq_cons n
    refine ⟨c, r, by rw [print, h], ?_⟩
    rintro rfl
    rcases hc with h | h <;> cases h
  | string s => exact ⟨'"', _, by rw [print, printString], by decide⟩
  | array xs => cases xs <;> exact ⟨'[', _, by rw [print], by decide⟩
  | object fields => cases fields <;> exact ⟨'\x7b', _, by rw [print], by decide⟩

theorem follow_printElems (xs : List JsValue) (r : List Char) : Follow (printElems xs ++ r) := by
  cases xs <;> rw [printElems] <;> exact follow_cons (by decide)

theorem follow_printFields (fields : List (String × JsValue)) (r : List Char) : Follow (printFields fields ++ r) := by
  cases fields <;> rw [printFields] <;> exact follow_cons (by decide)

theorem readString_printString (s : String) (r : List Char) :
    ∃ cs, printString s ++ r = '"' :: cs ∧ readString cs = some (s.toList, r) := by
  refine ⟨s.toList.flatMap escapeChar ++ '"' :: r, ?_, readString_escaped s.toList r⟩
  simp only [printString, List.cons_append, List.append_assoc, List.nil_append]

theorem readValue_array {fuel : Nat} {cs : List Char} (h : cs.head? ≠ some ']') :
    readValue (fuel + 1) ('[' :: cs) =
      (readValue fuel cs).bind fun x => (readElems fuel x.2).map fun xs => (.array (x.1 :: xs.1), xs.2) := by
  rw [readValue.eq_def]
  simp only
  split <;> simp_all

mutual

theorem readValue_print : ∀ (v : JsValue) {fuel : Nat} {r : List Char}, (print v).length < fuel → Follow r →
    readValue fuel (print v ++ r) = some (v, r)
  | .null, fuel + 1, r, _, _ => by rw [print]; rfl
  | .boolean true, fuel + 1, r, _, _ => by rw [print]; rfl
  | .boolean false, fuel + 1, r, _, _ => by rw [print]; rfl
  | .number n, fuel + 1, r, _, hr => by
    obtain ⟨c, cs, hcs, hc⟩ := printNumber_eq_cons n
    have hread := readNumber_printNumber n hr
    rw [print]
    rw [hcs, List.cons_append] at hread ⊢
    rw [readValue_of_number hc, hread]
    rfl
  | .string s, fuel + 1, r, _, _ => by
    obtain ⟨cs, hcs, hread⟩ := readString_printString s r
    rw [print, hcs]
    show (readString cs).map _ = _
    rw [hread, Option.map_some, String.ofList_toList]
  | .array [], fuel + 1, r, _, _ => by rw [print]; rfl
  | .array (x :: xs), fuel + 1, r, hf, _ => by
    obtain ⟨c, cs, hcs, hc⟩ := print_eq_cons x
    simp only [print, List.length_cons, List.length_append] at hf
    have hhead : (print x ++ (printElems xs ++ r)).head? ≠ some ']' := by
      rw [hcs, List.cons_append, List.head?_cons]
      exact fun h => hc (Option.some.inj h)
    rw [print, List.cons_append, List.append_assoc, readValue_array hhead,
      readValue_print x (by omega) (follow_printElems xs r), Option.bind_some, readElems_print xs (by omega)]
    rfl
  | .object [], fuel + 1, r, _, _ => by rw [print]; rfl
  | .object ((key, x) :: fields), fuel + 1, r, hf, _ => by
    simp only [print, List.length_cons, List.length_append] at hf
    have hfuel : (printString key ++ ':' :: print x).length < fuel := by
      simp only [List.length_append, List.length_cons]
      omega
    have hfield := readField_print key x hfuel (follow_printFields fields r)
    obtain ⟨cs, hcs, -⟩ := readString_printString key (':' :: (print x ++ (printFields fields ++ r)))
    rw [hcs] at hfield
    simp only [print, List.cons_append, List.append_assoc, hcs]
    show ((readField fuel ('"' :: cs)).bind fun f => (readFields fuel f.2).map _) = _
    rw [hfield, Option.bind_some, readFields_print fields (by omega)]
    rfl

theorem readElems_print : ∀ (xs : List JsValue) {fuel : Nat} {r : List Char}, (printElems xs).length < fuel →
    readElems fuel (printElems xs ++ r) = some (xs, r)
  | [], fuel + 1, r, _ => by rw [printElems]; rfl
  | x :: xs, fuel + 1, r, hf => by
    simp only [printElems, List.length_cons, List.length_append] at hf
    simp only [printElems, List.cons_append, List.append_assoc, readElems]
    rw [readValue_print x (by omega) (follow_printElems xs r), Option.bind_some, readElems_print xs (by omega)]
    rfl

theorem readField_print : ∀ (key : String) (x : JsValue) {fuel : Nat} {r : List Char},
    (printString key ++ ':' :: print x).length < fuel → Follow r →
      readField fuel (printString key ++ ':' :: (print x ++ r)) = some ((key, x), r)
  | key, x, fuel + 1, r, hf, hr => by
    obtain ⟨cs, hcs, hread⟩ := readString_printString key (':' :: (print x ++ r))
    simp only [List.length_append, List.length_cons] at hf
    rw [hcs]
    simp only [readField, hread, Option.bind_some]
    rw [readValue_print x (by omega) hr, Option.map_some, String.ofList_toList]

theorem readFields_print : ∀ (fields : List (String × JsValue)) {fuel : Nat} {r : List Char},
    (printFields fields).length < fuel → readFields fuel (printFields fields ++ r) = some (fields, r)
  | [], fuel + 1, r, _ => by rw [printFields]; rfl
  | (key, x) :: fields, fuel + 1, r, hf => by
    simp only [printFields, List.length_cons, List.length_append] at hf
    simp only [printFields, List.cons_append, List.append_assoc, readFields]
    rw [readField_print key x (by simp only [List.length_append, List.length_cons]; omega)
      (follow_printFields fields r), Option.bind_some, readFields_print fields (by omega)]
    rfl

end

/-! ## The format -/

def notJson (text : String) : Throwable := .exception "JsonParseException" ("not JSON: " ++ text)

def parse (text : String) : Try JsValue :=
  match readValue (text.length + 1) text.toList with
  | some (v, []) => .ok v
  | _ => .error (notJson text)

def stringify (v : JsValue) : String := String.ofList (print v)

theorem parse_stringify (v : JsValue) : parse (stringify v) = .ok v := by
  have hfuel : (print v).length < (stringify v).length + 1 := by simp [stringify]
  have hread := readValue_print v hfuel follow_nil
  rw [List.append_nil] at hread
  rw [parse, stringify, String.toList_ofList, ← stringify, hread]

end Json.Text

namespace Json

/-- JSON text as play-json prints it. -/
def jsonText : PlayJson := ⟨Text.parse, Text.stringify⟩

theorem jsonText_documented : jsonText.Documented := ⟨fun v _ => Text.parse_stringify v⟩

end Json
