import Mathlib.Data.Rat.Init
import Mathlib.Algebra.Order.Ring.Rat

/-!
# PSI samples

`PsiData` of `include/governor/psi_poller.h`. A `double` of the source is a rational number here:
every finite one is, and the comparisons on them are exact.
-/

namespace MemoryGovernor

/-- `PsiData`: the averages and totals of the two lines of the pressure file. -/
structure PsiData where
  some_avg10 : ℚ := 0
  some_avg60 : ℚ := 0
  some_avg300 : ℚ := 0
  some_total : UInt64 := 0
  full_avg10 : ℚ := 0
  full_avg60 : ℚ := 0
  full_avg300 : ℚ := 0
  full_total : UInt64 := 0
deriving DecidableEq, Repr

end MemoryGovernor
