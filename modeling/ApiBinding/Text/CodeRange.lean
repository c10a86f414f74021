/-! Sets of code points given by ranges, and runs of letters that share the distance to
their other case. -/

namespace ApiBinding.Text

/-- An inclusive range of code points, its first and its last. -/
abbrev CodeRange := Nat × Nat

/-- Membership in increasing, disjoint ranges. -/
def inRanges (code : Nat) : List CodeRange → Bool
  | [] => false
  | (first, last) :: rest => if code < first then false else code ≤ last || inRanges code rest

/-- A run of code points: the first, the last, the step between neighbours, and the distance
of each to its other case. -/
abbrev CaseRun := Nat × Nat × Nat × Int

/-- The other case of a code point, if one of the runs holds it. -/
def otherCase? (code : Nat) : List CaseRun → Option Nat
  | [] => none
  | (first, last, step, distance) :: rest =>
    if first ≤ code && code ≤ last && (code - first) % step == 0 then
      some (Int.toNat (code + distance))
    else otherCase? code rest

end ApiBinding.Text
