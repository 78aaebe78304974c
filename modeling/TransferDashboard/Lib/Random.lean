/-
Sources of random numbers, and the one of `java.util.Random`.

A source is a state machine: `nextInt bound` gives a number below `bound`
and the next state. What is proved of every source holds of every sequence
of draws; `javaRandom` is the documented 48-bit linear congruential
generator, whose sequence from a given seed is fixed.

`nextInt` of the generator draws again while the number falls into the last,
incomplete block of `bound` numbers below `2 ^ 31`. The loop is bounded here
by half the period, and `draw_accepts` is that it never runs out: half a
period on, the top bit of the state has flipped, and a state with the top
bit clear is accepted.
-/
import Mathlib

namespace Random

/-- Draws of numbers below a bound. -/
structure RandomSource (σ : Type) where
  nextInt : (bound : Nat) → [NeZero bound] → σ → Fin bound × σ

namespace Java

abbrev Seed := BitVec 48

/-- The initial scrambling of a seed. -/
def scramble (seed : Nat) : Seed := BitVec.ofNat 48 seed ^^^ 0x5DEECE66D#48

def next (s : Seed) : Seed := 0x5DEECE66D#48 * s + 0xB#48

/-- The 31 bits a state gives. -/
def bits (s : Seed) : Nat := (s >>> 17).toNat

/-- The number is kept: its block of `bound` numbers lies below `2 ^ 31`. -/
def Accepts (bound u : Nat) : Prop := u - u % bound + (bound - 1) < 2 ^ 31

instance (bound u : Nat) : Decidable (Accepts bound u) := inferInstanceAs (Decidable (_ < _))

/-- The rejection loop. -/
def draw (bound : Nat) [NeZero bound] : Nat → Seed → Fin bound × Seed
  | 0, s => (Fin.ofNat bound (bits s), s)
  | fuel + 1, s =>
    if Accepts bound (bits (next s)) then (Fin.ofNat bound (bits (next s)), next s) else draw bound fuel (next s)

def nextInt (bound : Nat) [NeZero bound] (s : Seed) : Fin bound × Seed :=
  -- A power of two takes the high bits.
  if bound &&& (bound - 1) = 0 then (Fin.ofNat bound (bound * bits (next s) / 2 ^ 31), next s)
  else draw bound (2 ^ 47 + 1) s

/-! ## The loop ends -/

/-- `2 ^ k` steps at once: multiplier and addend. -/
def leap : Nat → Seed × Seed
  | 0 => (0x5DEECE66D#48, 0xB#48)
  | k + 1 => ((leap k).1 * (leap k).1, (leap k).1 * (leap k).2 + (leap k).2)

theorem next_iterate (k : Nat) (s : Seed) : next^[2 ^ k] s = (leap k).1 * s + (leap k).2 := by
  induction k generalizing s with
  | zero => rfl
  | succ k ih =>
    rw [pow_succ, mul_two, Function.iterate_add_apply, ih, ih, leap]
    ring

/-- Half a period on, the top bit has flipped and the others are back. -/
theorem next_half_period (s : Seed) : next^[2 ^ 47] s = s + BitVec.ofNat 48 (2 ^ 47) := by
  have h : leap 47 = (1#48, BitVec.ofNat 48 (2 ^ 47)) := by decide +kernel
  rw [next_iterate, h, BitVec.one_mul]

theorem bits_lt_of_lt {s : Seed} (h : s.toNat < 2 ^ 47) : bits s < 2 ^ 30 := by
  simp only [bits, BitVec.toNat_ushiftRight, Nat.shiftRight_eq_div_pow]
  omega

theorem accepts_of_lt {bound u : Nat} (hb : bound < 2 ^ 31) (hu : u < 2 ^ 30) : Accepts bound u := by
  unfold Accepts
  by_cases h : u < bound
  · rw [Nat.mod_eq_of_lt h]; omega
  · have : u % bound ≤ u := Nat.mod_le u bound
    omega

/-- An accepted number within half a period. -/
theorem exists_accepted {bound : Nat} (hb : bound < 2 ^ 31) (s : Seed) :
    ∃ k ≤ 2 ^ 47, Accepts bound (bits (next^[k] (next s))) := by
  by_cases h : (next s).toNat < 2 ^ 47
  · exact ⟨0, by omega, accepts_of_lt hb (bits_lt_of_lt h)⟩
  · refine ⟨2 ^ 47, le_rfl, accepts_of_lt hb (bits_lt_of_lt ?_)⟩
    have hlt := (next s).isLt
    rw [next_half_period, BitVec.toNat_add, BitVec.toNat_ofNat]
    omega

theorem draw_of_accepted {bound : Nat} [NeZero bound] {k : Nat} :
    ∀ {fuel : Nat} {s : Seed}, k < fuel → Accepts bound (bits (next^[k] (next s))) →
      ∃ j ≤ k, Accepts bound (bits (next^[j] (next s))) ∧
        draw bound fuel s = (Fin.ofNat bound (bits (next^[j] (next s))), next^[j] (next s)) := by
  induction k with
  | zero =>
    rintro (_ | fuel) s hk ha
    · omega
    · exact ⟨0, le_rfl, ha, by rw [draw, if_pos (by simpa using ha)]; rfl⟩
  | succ k ih =>
    rintro (_ | fuel) s hk ha
    · omega
    · by_cases h0 : Accepts bound (bits (next s))
      · exact ⟨0, by omega, h0, by rw [draw, if_pos h0]; rfl⟩
      · obtain ⟨j, hj, haj, hdj⟩ := ih (Nat.lt_of_succ_lt_succ hk) ha
        exact ⟨j + 1, by omega, haj, by rw [draw, if_neg h0, hdj]; rfl⟩

/-- The loop leaves with an accepted number: it never runs out. -/
theorem draw_accepts {bound : Nat} [NeZero bound] (hb : bound < 2 ^ 31) (s : Seed) :
    ∃ j, Accepts bound (bits (next^[j] (next s))) ∧
      draw bound (2 ^ 47 + 1) s = (Fin.ofNat bound (bits (next^[j] (next s))), next^[j] (next s)) := by
  obtain ⟨k, hk, ha⟩ := exists_accepted hb s
  obtain ⟨j, -, haj, hdj⟩ := draw_of_accepted (Nat.lt_succ_of_le hk) ha
  exact ⟨j, haj, hdj⟩

end Java

/-- `java.util.Random`, which `scala.util.Random` wraps. -/
def javaRandom : RandomSource Java.Seed where
  nextInt bound _ s := Java.nextInt bound s

/-- Any outcome of the draws: numbers given beforehand, then zeros. -/
def scripted : RandomSource (List Nat) where
  nextInt bound _ script := (Fin.ofNat bound (script.headD 0), script.tail)

end Random
