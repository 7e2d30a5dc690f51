/-!
# `TypedOps.Number.MachineInt`: integers of a fixed width

Bits make patterns, and a pattern stands for a natural number or, in two's
complement, for an integer with a sign. Numbers are kept exact everywhere else;
here is what is lost and what is refused when one has to fit into its bits.
-/

set_option autoImplicit false

namespace TypedOps.MachineInt

/-- The number of patterns of the given number of bits. -/
def patterns (bits : Nat) : Nat := Nat.pow 2 bits

/-- Whether an integer is one of those of `bits` bits with a sign. -/
def fits (bits : Nat) (i : Int) : Bool :=
  -(patterns (bits - 1) : Int) ≤ i && i < patterns (bits - 1)

/-- Whether an integer is one of those of `bits` bits without a sign. -/
def fitsUnsigned (bits : Nat) (i : Int) : Bool := 0 ≤ i && i < patterns bits

/-- The integer that the low bits of `n` stand for. -/
def signed (bits n : Nat) : Int :=
  let low := n % patterns bits
  if low < patterns (bits - 1) then low else (low : Int) - patterns bits

/-- The pattern of `bits` bits that stands for an integer. -/
def pattern (bits : Nat) (i : Int) : Nat := (i % patterns bits).toNat

end TypedOps.MachineInt
