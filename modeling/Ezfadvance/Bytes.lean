import Mathlib.Data.Nat.Notation

/-!
# Bytes

`std::vector<std::uint8_t>` and `std::string` are both lists of bytes here; a `std::string`
literal of the source is `ascii "…"`.
-/

namespace Ezfadvance

abbrev Bytes := List UInt8

def ascii (text : String) : Bytes := text.toList.map fun c => UInt8.ofNat c.toNat

end Ezfadvance
