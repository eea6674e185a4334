import ModuleLinker.Concatenation.Basic
import ModuleLinker.Digest.Sha256

/-!
# Fingerprints of concatenations

A concatenation is identified by a digest over its members and their export
maps, in order.  What goes into the digest is a list of bytes of its own.
-/

namespace ModuleLinker

namespace Fingerprint

/-- The UTF-8 bytes of a text. -/
def textBytes (text : String) : List UInt8 := text.toUTF8.data.toList

/-- The number of a module as four bytes, the least significant first. -/
def moduleBytes (module : ModuleId) : List UInt8 :=
  let n := module.number.toNat
  [0, 8, 16, 24].map fun shift => (n >>> shift).toUInt8

/-- One entry of an export map: its name, a zero, its kind, its text and
another zero. -/
def entryBytes (entry : String × Reference) : List UInt8 :=
  textBytes entry.1 ++ 0 :: (if entry.2.isIdentifier then 1 else 0) ::
    (textBytes entry.2.source ++ [0])

/-- One member: its number, the entries of its export map, and a byte that no
text contains. -/
def memberBytes (module : ModuleId) (map : ExportMap) : List UInt8 :=
  moduleBytes module ++ map.entries.flatMap entryBytes ++ [0xff]

end Fingerprint

namespace Concatenation

/-- The bytes that identify a concatenation. -/
def fingerprintBytes (unit : Concatenation) : List UInt8 :=
  unit.members.entries.flatMap fun entry => Fingerprint.memberBytes entry.1 entry.2.exportMap

/-- The digest that identifies a concatenation. -/
def fingerprint (unit : Concatenation) : String := Sha256.hex unit.fingerprintBytes

end Concatenation

end ModuleLinker
