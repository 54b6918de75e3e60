import Hierarchy.Failure

/-!
# The worker pool

A pool of workers starts when it is first asked for and ends for good when it is closed.
-/

namespace Hierarchy

inductive PoolState where
  | idle
  | running
  | closed
  deriving DecidableEq, Repr

structure Pool where
  /-- The number of workers. -/
  size : Nat
  state : PoolState
  deriving DecidableEq, Repr

namespace Pool

def ofSize (size : Nat) : Pool := ⟨size, .idle⟩

def isClosed (p : Pool) : Bool := p.state == .closed

/-- Asks for the workers; a closed pool has none. -/
def start (p : Pool) : Except Failure Nat × Pool :=
  match p.state with
  | .closed => (.error (.pool "pool already closed"), p)
  | .idle | .running => (.ok p.size, { p with state := .running })

/-- Closes the pool; false if it was closed before. -/
def close (p : Pool) : Bool × Pool := (!p.isClosed, { p with state := .closed })

end Pool

end Hierarchy
