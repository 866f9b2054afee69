import ApiTypings.Naming.Candidate

/-! # Taken names

The names given out so far. A candidate receives its primary name if that is free, else its
fallback name, else the fallback name with the least number that is free.
-/

namespace ApiTypings.Naming

/-- The names given out, the latest first. -/
structure Ledger where
  taken : List String
deriving DecidableEq, Repr

namespace Ledger

def empty : Ledger := ⟨[]⟩

def size (l : Ledger) : Nat := l.taken.length

def isTaken (l : Ledger) (name : String) : Bool := l.taken.contains name

/-- The least number from 2 on whose name is free. Among one more numbers than names taken,
one is free. -/
def leastFree (l : Ledger) (c : Candidate) : Nat :=
  ((List.range (l.size + 1)).find? fun i => !l.isTaken (c.numbered (i + 2))).getD l.size + 2

def choose (l : Ledger) (c : Candidate) : String :=
  if !l.isTaken c.primary then c.primary
  else if !l.isTaken c.fallback then c.fallback
  else c.numbered (l.leastFree c)

def claim (l : Ledger) (c : Candidate) : String × Ledger :=
  let name := l.choose c
  (name, ⟨name :: l.taken⟩)

def claimEndpoint (l : Ledger) (path method : String) : String × Ledger :=
  l.claim (Candidate.ofEndpoint path method)

end Ledger

end ApiTypings.Naming
