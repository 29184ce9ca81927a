/-!
# Sets of code points

A property of characters that a standard fixes by a table is kept as the increasing list of the
code points at which membership changes.  The first entry begins a run of members, the second
one ends it, and so on.
-/

namespace GoMend

namespace Text

/-- A set of code points, as the increasing list of the places where membership changes. -/
structure CodeSet where
  /-- The places of change; those at even indices begin a run and those at odd ones end it. -/
  changes : List Nat

namespace CodeSet

/-- The changes at or before a code point. -/
def changesUpTo (set : CodeSet) (code : Nat) : List Nat :=
  set.changes.takeWhile (· ≤ code)

/-- A code point is a member exactly when an odd number of changes lie at or before it. -/
def contains (set : CodeSet) (code : Nat) : Bool :=
  (set.changesUpTo code).length % 2 == 1

/-- The first code point of the run that holds the given one. -/
def runStart? (set : CodeSet) (code : Nat) : Option Nat :=
  if set.contains code then (set.changesUpTo code).getLast? else none

end CodeSet

end Text

end GoMend
