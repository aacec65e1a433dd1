/-!
# PAL error codes

The codes of `common/include/pal_error.h` that the modelled PAL functions
return.
-/

namespace Gramine.Pal

/-- A PAL error, `enum pal_error`. -/
inductive PalError where
  | inval
  | denied
  | badHandle
  | noMem
  | interrupted
  deriving DecidableEq, Repr

/-- The value of the error as the C functions return it. -/
def PalError.toInt : PalError → Int
  | .inval => -4
  | .denied => -6
  | .badHandle => -7
  | .interrupted => -13
  | .noMem => -16

end Gramine.Pal
