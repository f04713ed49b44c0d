import Cytadel.Bytes

/-!
# CVE identifiers

`src/db/cve_id_valid.h`, the one grammar check that the three feeds and the
plugin findings share: `CVE-`, four digits, a dash, and four or more digits.
-/

namespace Cytadel.Db

open Cytadel

/-- `cytadel_is_valid_cve_id`, on the visible bytes of the string. -/
def isValidCveId (id : Bytes) : Bool :=
  if id.length < 13 then false
  else if id.take 4 != ascii "CVE-" then false
  else if !((id.drop 4).take 4).all isDigitByte then false
  else if (id.drop 8).take 1 != ascii "-" then false
  else if !(id.drop 9).all isDigitByte then false
  else decide ((id.drop 9).length ≥ 4)

end Cytadel.Db
