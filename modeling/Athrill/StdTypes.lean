import Athrill.Lib.Word

/-!
# Standard types

The fixed-width types of `inc/std_types.h` and the return codes of `inc/std_errno.h`.

Where C leaves the behaviour open the models follow one rule. Arithmetic wraps, also that of signed types
(two's complement), and the counts of shifts are taken modulo the width. An access outside an object, or
through `NULL`, gives no result (`none`, or a stop of the run).
-/

namespace Athrill

abbrev AthrillAddrType (W : Nat) := BitVec W

inductive StdReturnType
  | ok
  | decode
  | exec
  | segv
  | invalid
  | noent
  | limit
  | perm
  deriving DecidableEq, Repr

/-- How C code ends without a result: an access outside an array, or a failed `ASSERT`. -/
inductive CFault
  | outside
  | asserted
  deriving DecidableEq, Repr

/-- The return codes of `mros_types.h` that the modelled functions use. -/
inductive MRosReturnType
  | ok
  | noent
  | nomem
  | range
  deriving DecidableEq, Repr

def u64 (n : Nat) : Nat := n % 2 ^ 64

def u32 (n : Nat) : Nat := n % 2 ^ 32

def intOfUint32 (n : Nat) : Int := if n < 2 ^ 31 then n else n - 2 ^ 32

def uint32OfInt (i : Int) : Nat := (i % 2 ^ 32).toNat

theorem intOfUint32_of_lt {n : Nat} (h : n < 2 ^ 31) : intOfUint32 n = n := if_pos h

theorem uint32OfInt_natCast {n : Nat} (h : n < 2 ^ 31) : uint32OfInt n = n := by
  simp only [uint32OfInt]
  omega

end Athrill
