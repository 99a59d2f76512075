/-!
# Rejections

A value that cannot be encoded, hashed or proved is rejected for one of three causes.
-/

namespace PayrollSeal

/-- Why a value cannot be encoded, hashed or proved. -/
inductive Rejection where
  /-- A scalar is malformed or has the wrong length. -/
  | malformed (field reason : String)
  /-- An integer does not fit its width. -/
  | outOfRange (field : String) (value bits : Nat)
  /-- The input has the wrong structure, such as no leaves or no items. -/
  | unusable (reason : String)
deriving DecidableEq

namespace Rejection

/-- The text of a rejection. -/
def message : Rejection → String
  | malformed field reason => s!"format error in {field}: {reason}"
  | outOfRange field value bits => s!"{field} out of range for u{bits}: {value}"
  | unusable reason => s!"invalid input: {reason}"

/-- Whether a scalar was malformed. -/
def isMalformed : Rejection → Bool
  | malformed .. => true
  | _ => false

/-- Whether an integer did not fit. -/
def isOutOfRange : Rejection → Bool
  | outOfRange .. => true
  | _ => false

/-- Whether the input had the wrong structure. -/
def isUnusable : Rejection → Bool
  | unusable .. => true
  | _ => false

end Rejection

end PayrollSeal
