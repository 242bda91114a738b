/-
**The random generator of the instruction stream generator.**

The engine draws 64-bit numbers from a `std::mt19937_64` it seeds once and reseeds on a reset.  The
results about the engine hold for every generator; this module holds the interface they use, and the
generator of the source.

Main definitions:

* `CoralNpu.Prng` — a seeded generator of 64-bit numbers;
* `CoralNpu.mt19937_64` — the 64-bit Mersenne Twister.
-/

import Mathlib.Data.Nat.Notation

set_option relaxedAutoImplicit false
set_option autoImplicit false

namespace CoralNpu

/-- A seeded generator of 64-bit numbers. -/
structure Prng where
  State : Type
  seed : BitVec 64 → State
  next : State → BitVec 64 × State

/-- The words of the initial window of the Mersenne Twister after `previous`, from word `i` on. -/
def mt19937_64Words (previous : BitVec 64) (i : ℕ) : ℕ → List (BitVec 64)
  | 0 => []
  | n + 1 =>
      let word := 6364136223846793005 * (previous ^^^ previous >>> 62) + BitVec.ofNat 64 i
      word :: mt19937_64Words word (i + 1) n

/-- The word that follows a window, from its words `0`, `1` and `156`. -/
def mt19937_64Twist (first second middle : BitVec 64) : BitVec 64 :=
  let joined := (first &&& 0xFFFFFFFF80000000) ||| (second &&& 0x7FFFFFFF)
  middle ^^^ joined >>> 1 ^^^ (if joined &&& 1 = 1 then 0xB5026F5AA96619E9 else 0)

/-- The tempering of an output word. -/
def mt19937_64Temper (word : BitVec 64) : BitVec 64 :=
  let word := word ^^^ (word >>> 29 &&& 0x5555555555555555)
  let word := word ^^^ (word <<< 17 &&& 0x71D67FFFEDA60000)
  let word := word ^^^ (word <<< 37 &&& 0xFFF7EEE000000000)
  word ^^^ word >>> 43

/-- `std::mt19937_64`: the state is the window of the last 312 words. -/
def mt19937_64 : Prng where
  State := List (BitVec 64)
  seed value := value :: mt19937_64Words value 1 311
  next window :=
    let word := mt19937_64Twist (window.getD 0 0) (window.getD 1 0) (window.getD 156 0)
    (mt19937_64Temper word, window.drop 1 ++ [word])

end CoralNpu
