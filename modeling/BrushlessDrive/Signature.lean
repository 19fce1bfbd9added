/-!
# Device signature

A block of 128 bytes, written when a device is made. Flash memory that was never written reads as
`ff` throughout, and some of it can have been cleared to `00`; a block of nothing else is no
signature.
-/

set_option autoImplicit false

namespace BrushlessDrive

abbrev SignatureBlock := Vector UInt8 128

/-- A byte that unwritten flash memory can hold. -/
def isBlankByte (b : UInt8) : Bool := b == 0xff || b == 0x00

structure Signature where
  bytes : SignatureBlock
deriving DecidableEq

namespace Signature

/-- The signature in a block, if one was written. -/
def ofBlock? (block : SignatureBlock) : Option Signature :=
  if block.all isBlankByte then none else some ⟨block⟩

/-- The two lower-case hexadecimal digits of a byte. -/
def hexByte (b : UInt8) : String :=
  String.ofList [Nat.digitChar (b.toNat / 16), Nat.digitChar (b.toNat % 16)]

/-- The first eight bytes, which tell devices apart in a log. -/
def text (s : Signature) : String :=
  "DeviceSignature(" ++ String.join ((s.bytes.toList.take 8).map hexByte) ++ "..)"

end Signature

end BrushlessDrive
