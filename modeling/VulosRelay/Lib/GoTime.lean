import Mathlib.Algebra.Ring.Nat
import Mathlib.Algebra.Ring.Int.Defs

/-!
# Instants and durations as Go's `time` package computes them

An instant is its distance from the Unix epoch in nanoseconds. A `Duration` is a
signed 64-bit number of nanoseconds, so the difference of two instants saturates,
and negating the least duration gives it back. Both matter to code that compares
a clock with a timestamp somebody else chose.
-/

namespace GoTime

def int64 (n : Int) : Int := Int.bmod n (2 ^ 64)

def maxDuration : Int := 2 ^ 63 - 1

def minDuration : Int := -2 ^ 63

def second : Int := 1000000000

def minute : Int := 60 * second

def sub (t u : Int) : Int := max minDuration (min maxDuration (t - u))

def neg (d : Int) : Int := int64 (-d)

def unixToInternal : Int := 62135596800

def zero : Int := -unixToInternal * second

def unix (sec : Int) : Int := (int64 (sec + unixToInternal) - unixToInternal) * second

def toUnix (t : Int) : Int := t / second

theorem sub_nonneg (h : u ≤ t) : 0 ≤ sub t u := by
  unfold sub minDuration maxDuration
  omega

theorem sub_le_iff (hlow : minDuration ≤ d) (hhg : d < maxDuration) : sub t u ≤ d ↔ t - u ≤ d := by
  unfold sub
  omega

end GoTime
