import RiscvPipeline.Isa.Class

/-! Where the bytes of an access lie within an aligned doubleword. -/

namespace RiscvPipeline.Lanes

/-- The low bytes of `data`, as many as the access has, repeated over all lanes. -/
def replicate (data : Word) : AccessSize → Word
  | .byte => let b := data.setWidth 8; b ++ b ++ b ++ b ++ b ++ b ++ b ++ b
  | .half => let h := data.setWidth 16; h ++ h ++ h ++ h
  | .word => let w := data.setWidth 32; w ++ w
  | .double => data

/-- The lanes an access touches. Lanes behind the doubleword are cut off. -/
def strobes (addr : Word) (size : AccessSize) : BitVec 8 :=
  (BitVec.allOnes 8 >>> (8 - size.bytes)) <<< Word.lane addr

/-- The value of an access within the doubleword around its address. Bytes behind the doubleword
read as zero. -/
def extract (dword addr : Word) (size : AccessSize) (signed : Bool) : Word :=
  let moved := dword >>> (8 * Word.lane addr)
  if signed then Word.signExtendFrom moved size.bits else moved &&& Word.mask size.bits

end RiscvPipeline.Lanes
