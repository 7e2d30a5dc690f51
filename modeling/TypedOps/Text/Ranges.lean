/-!
# `TypedOps.Text.Ranges`: sets of code points as tables

Unicode properties are kept as tables of runs. A plain run holds every code
point from its first to its last; a stepped run holds every second one, which
is how upper and lower case letters alternate in many scripts. ASCII is never
looked up here: every property states its ASCII part in the open.
-/

set_option autoImplicit false

namespace TypedOps.Text

/-- Runs of consecutive code points, given by their first and last. -/
abbrev Ranges := List (Nat × Nat)

/-- Whether a code point lies in one of the runs of `Ranges`. -/
def Ranges.holds (ranges : Ranges) (n : Nat) : Bool :=
  ranges.any fun (first, last) => first ≤ n && n ≤ last

/-- Runs given by their first code point, their last one and the distance
between neighbours. -/
abbrev SteppedRanges := List (Nat × Nat × Nat)

/-- Whether a code point lies in one of the runs of `SteppedRanges`. -/
def SteppedRanges.holds (ranges : SteppedRanges) (n : Nat) : Bool :=
  ranges.any fun (first, last, step) => first ≤ n && n ≤ last && (n - first) % step == 0

end TypedOps.Text
