/-
Decimal numbers in text, printed and read back.

A number is read as the longest run of digits, so what follows a printed
number must not begin with one (`NoDigit`). A number of fixed width is read
by its width, whatever follows.
-/
import Mathlib

namespace Digits

/-- Text that does not go on with a digit. -/
def NoDigit (r : List Char) : Prop := ∀ c ∈ r.head?, c.isDigit = false

theorem noDigit_cons {c : Char} {r : List Char} (h : c.isDigit = false) : NoDigit (c :: r) := by
  intro d hd
  rw [List.head?_cons, Option.mem_def, Option.some.injEq] at hd
  rw [← hd]
  exact h

/-! ## Natural numbers -/

def printNat (n : Nat) : List Char := Nat.toDigits 10 n

/-- The number the text begins with, and the rest of the text. -/
def readNat (cs : List Char) : Option (Nat × List Char) :=
  if cs.takeWhile Char.isDigit = [] then none
  else some (Nat.ofDigitChars 10 (cs.takeWhile Char.isDigit) 0, cs.dropWhile Char.isDigit)

theorem readNat_digits {ds r : List Char} (hne : ds ≠ []) (hds : ∀ c ∈ ds, c.isDigit = true) (hr : NoDigit r) :
    readNat (ds ++ r) = some (Nat.ofDigitChars 10 ds 0, r) := by
  have hrest : r.takeWhile Char.isDigit = [] ∧ r.dropWhile Char.isDigit = r := by
    cases r with
    | nil => exact ⟨rfl, rfl⟩
    | cons c r =>
      have hc : c.isDigit = false := hr c rfl
      exact ⟨List.takeWhile_cons_of_neg (by simp [hc]), List.dropWhile_cons_of_neg (by simp [hc])⟩
  rw [readNat, List.takeWhile_append_of_pos hds, List.dropWhile_append_of_pos hds, hrest.1, hrest.2, List.append_nil,
    if_neg hne]

theorem isDigit_of_mem_printNat {n : Nat} {c : Char} (h : c ∈ printNat n) : c.isDigit = true :=
  Nat.isDigit_of_mem_toDigits (by decide) (by decide) h

theorem readNat_printNat (n : Nat) {r : List Char} (hr : NoDigit r) : readNat (printNat n ++ r) = some (n, r) := by
  have hne : printNat n ≠ [] := Nat.toDigits_ne_nil
  rw [readNat_digits hne (fun c hc => isDigit_of_mem_printNat hc) hr, printNat, Nat.ofDigitChars_ten_toDigits]

/-- A printed number begins with a digit. -/
theorem printNat_eq_cons (n : Nat) : ∃ c r, printNat n = c :: r ∧ c.isDigit = true := by
  obtain ⟨c, r, h⟩ := List.exists_cons_of_ne_nil (Nat.toDigits_ne_nil (n := n) (b := 10))
  exact ⟨c, r, h, isDigit_of_mem_printNat (show c ∈ Nat.toDigits 10 n by rw [h]; exact List.mem_cons_self)⟩

/-! ## Integers -/

def printInt : Int → List Char
  | .ofNat n => printNat n
  | .negSucc n => '-' :: printNat (n + 1)

def readInt : List Char → Option (Int × List Char)
  | '-' :: cs => (readNat cs).map fun x => (-(x.1 : Int), x.2)
  | cs => (readNat cs).map fun x => ((x.1 : Int), x.2)

theorem readInt_of_digit {c : Char} {cs : List Char} (hc : c.isDigit = true) :
    readInt (c :: cs) = (readNat (c :: cs)).map fun x => ((x.1 : Int), x.2) := by
  unfold readInt
  split
  next h =>
    rw [List.cons.injEq] at h
    rw [h.1] at hc
    cases hc
  · rfl

theorem readInt_printInt (i : Int) {r : List Char} (hr : NoDigit r) : readInt (printInt i ++ r) = some (i, r) := by
  cases i with
  | ofNat n =>
    obtain ⟨c, ds, hds, hc⟩ := printNat_eq_cons n
    have hread := readNat_printNat n hr
    rw [hds] at hread
    rw [printInt, hds, List.cons_append, readInt_of_digit hc, ← List.cons_append, hread]
    rfl
  | negSucc n =>
    simp only [printInt, List.cons_append, readInt, readNat_printNat (n + 1) hr, Option.map_some]
    rfl

/-- A printed integer begins with a sign or a digit. -/
theorem printInt_eq_cons (i : Int) : ∃ c r, printInt i = c :: r ∧ (c = '-' ∨ c.isDigit = true) := by
  cases i with
  | ofNat n =>
    obtain ⟨c, r, h, hc⟩ := printNat_eq_cons n
    exact ⟨c, r, h, .inr hc⟩
  | negSucc n => exact ⟨'-', printNat (n + 1), rfl, .inl rfl⟩

/-! ## Fixed width -/

/-- The last `width` digits of a number. -/
def pad : Nat → Nat → List Char
  | 0, _ => []
  | width + 1, n => Nat.digitChar (n / 10 ^ width % 10) :: pad width n

def readFixed (width : Nat) (cs : List Char) : Option (Nat × List Char) :=
  if (cs.take width).length = width ∧ (cs.take width).all Char.isDigit then
    some (Nat.ofDigitChars 10 (cs.take width) 0, cs.drop width)
  else none

theorem length_pad (width n : Nat) : (pad width n).length = width := by
  induction width with
  | zero => rfl
  | succ width ih => rw [pad, List.length_cons, ih]

theorem isDigit_digitChar : ∀ d < 10, (Nat.digitChar d).isDigit = true := by decide

theorem isDigit_of_mem_pad {width n : Nat} {c : Char} (h : c ∈ pad width n) : c.isDigit = true := by
  induction width with
  | zero => cases h
  | succ width ih =>
    rcases List.mem_cons.1 h with rfl | hrest
    · exact isDigit_digitChar _ (Nat.mod_lt _ (by decide))
    · exact ih hrest

theorem ofDigitChars_pad (width n init : Nat) :
    Nat.ofDigitChars 10 (pad width n) init = 10 ^ width * init + n % 10 ^ width := by
  induction width generalizing init with
  | zero => simp [pad, Nat.mod_one]
  | succ width ih =>
    have hsplit : n % 10 ^ (width + 1) = 10 ^ width * (n / 10 ^ width % 10) + n % 10 ^ width := by
      rw [Nat.pow_succ, Nat.mod_mul, Nat.add_comm]
    rw [pad, Nat.ofDigitChars_cons_digitChar_of_lt_ten (Nat.mod_lt _ (by decide)), ih, hsplit, Nat.pow_succ]
    ring

theorem ofDigitChars_pad_of_lt {width n : Nat} (h : n < 10 ^ width) : Nat.ofDigitChars 10 (pad width n) 0 = n := by
  rw [ofDigitChars_pad, Nat.mod_eq_of_lt h]
  omega

theorem readFixed_pad {width n : Nat} (h : n < 10 ^ width) (r : List Char) :
    readFixed width (pad width n ++ r) = some (n, r) := by
  have htake : (pad width n ++ r).take width = pad width n := List.take_left' (length_pad width n)
  have hdrop : (pad width n ++ r).drop width = r := List.drop_left' (length_pad width n)
  have hall : (pad width n).all Char.isDigit = true := List.all_eq_true.2 fun c hc => isDigit_of_mem_pad hc
  rw [readFixed, htake, hdrop, if_pos ⟨length_pad width n, hall⟩, ofDigitChars_pad_of_lt h]

end Digits
