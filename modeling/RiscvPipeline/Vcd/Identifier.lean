/-! The identifier codes of a value change dump: short words over the printable characters, no two
of them alike. -/

namespace RiscvPipeline.Vcd

/-- The number of printable characters, from `!` to `~`. -/
def radix : Nat := 94

/-- The printable character of a digit. -/
def digit (n : Nat) : Char := Char.ofNat ('!'.toNat + n % radix)

/-- The identifier of the port at position `n`: `n` in bijective base 94, the least significant
digit first. The one-character words come first, then the words of two, and so on. -/
def identifier (n : Nat) : List Char :=
  if n < radix then [digit n] else digit n :: identifier (n / radix - 1)
termination_by n
decreasing_by simp [radix] at *; omega

theorem identifier_ne_nil (n : Nat) : identifier n ≠ [] := by
  rw [identifier]; split <;> simp

end RiscvPipeline.Vcd
