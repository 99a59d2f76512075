import PayrollSeal.Json.Read
import PayrollSeal.Decimal

/-!
# Hashes and decimals in JSON

Both are written as text, and never as numbers.
-/

namespace PayrollSeal

open Json (Reader readString)

namespace Digest

def toJson (h : Digest) : Json := .ofString h.toHex

def ofJson : Reader Digest := fun json => do
  (ofHex (← readString json)).mapError .refused

end Digest

namespace Decimal

def toJson (d : Decimal) : Json := .ofString d.text

def ofJson : Reader Decimal := fun json => do
  (ofText (← readString json)).mapError .refused

end Decimal

end PayrollSeal
