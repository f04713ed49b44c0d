import Cytadel.Kb.Kb

/-!
# From a banner to a CPE

`src/net/cpe_map.c`. The first rule of the table whose marker occurs in the
text decides: the version is read right behind the marker, and the CPE goes
into the knowledge base under the port. A marker without a version ends the
search too.
-/

namespace Cytadel.Net

open Cytadel Cytadel.Kb

/-- `cytadel_cpe_rule_t`. -/
structure CpeRule where
  marker : Bytes
  vendor : Bytes
  product : Bytes
  deriving DecidableEq, Repr

/-- `g_cpe_rules`. -/
def cpeRules : List CpeRule :=
  [⟨ascii "OpenSSH_", ascii "openbsd", ascii "openssh"⟩,
    ⟨ascii "Apache/", ascii "apache", ascii "http_server"⟩,
    ⟨ascii "nginx/", ascii "nginx", ascii "nginx"⟩,
    ⟨ascii "vsFTPd ", ascii "vsftpd_project", ascii "vsftpd"⟩,
    ⟨ascii "ProFTPD ", ascii "proftpd", ascii "proftpd"⟩,
    ⟨ascii "Microsoft-IIS/", ascii "microsoft", ascii "iis"⟩,
    ⟨ascii "lighttpd/", ascii "lighttpd", ascii "lighttpd"⟩]

/-- CYTADEL_CPE_VERSION_MAX_LEN. -/
def cpeVersionMaxLen : ℕ := 63

/-- The offset loop of `cytadel_cpe_find`: the haystack from the offset on. -/
def findFrom (needle : Bytes) : Bytes → ℕ → Option ℕ
  | [], _ => none
  | c :: haystack, i =>
      if needle.isPrefixOf (c :: haystack) then some i else findFrom needle haystack (i + 1)

/-- `cytadel_cpe_find`. -/
def cpeFind (haystack needle : Bytes) : Option ℕ :=
  if needle.length = 0 ∨ needle.length > haystack.length then none
  else findFrom needle haystack 0

/-- `cytadel_cpe_version_char_ok`. -/
def cpeVersionCharOk (c : UInt8) : Bool :=
  (0x41 ≤ c && c ≤ 0x5A) || (0x61 ≤ c && c ≤ 0x7A) || (0x30 ≤ c && c ≤ 0x39) ||
    c == 0x2E || c == 0x5F || c == 0x2D

/-- The loop of `cytadel_cpe_extract_version`, with the room that is left. -/
def extractVersion : ℕ → Bytes → Bytes
  | 0, _ => []
  | _, [] => []
  | room + 1, c :: text =>
      if cpeVersionCharOk c then toLowerAscii c :: extractVersion room text else []

/-- `cytadel_cpe_extract_version`. -/
def cpeExtractVersion (text : Bytes) (start : ℕ) : Bytes :=
  extractVersion cpeVersionMaxLen (text.drop start)

/-- The CPE of a rule and a version: `cpe:2.3:a:%s:%s:%s` and seven wildcards. -/
def cpeString (rule : CpeRule) (version : Bytes) : Bytes :=
  ascii "cpe:2.3:a:" ++ rule.vendor ++ ascii ":" ++ rule.product ++ ascii ":" ++ version ++
    ascii ":*:*:*:*:*:*:*"

/-- The size of `cpe`. -/
def cpeBufLen : ℕ := 16 + 32 + 32 + cpeVersionMaxLen + 32

/-- `CPE/%u`. -/
def cpeKey (port : UInt16) : Bytes := ascii "CPE/" ++ decimal port.toNat

/-- The loop over the rules. -/
def mapRules (kb : Kb) (a : Allocs) (port : UInt16) (text : Bytes) : List CpeRule → Bool × Kb
  | [] => (false, kb)
  | rule :: rules =>
      match cpeFind text rule.marker with
      | none => mapRules kb a port text rules
      | some markerAt =>
          let version := cpeExtractVersion text (markerAt + rule.marker.length)
          if version.length = 0 then (false, kb)
          else
            let cpe := cpeString rule version
            if cpe.length ≥ cpeBufLen then (false, kb)
            else if (cpeKey port).length ≥ 32 then (false, kb)
            else kb.setStr a (some (cpeKey port)) (some cpe)

/-- `cytadel_cpe_map_and_write`; a NULL text is an empty one. -/
def cpeMapAndWrite (kb : Kb) (a : Allocs) (port : UInt16) (text : Bytes) : Bool × Kb :=
  if text.length = 0 then (false, kb) else mapRules kb a port text cpeRules

end Cytadel.Net
