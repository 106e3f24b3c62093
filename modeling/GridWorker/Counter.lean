/-! # The invocation counter

The number of successful invocations of one host, in 64 bits. Recording answers the
count before it and moves on by one, from the largest count back to zero; reading
answers the count. Both are atomic, so what several threads do to one counter is a
sequence of turns.
-/
namespace GridWorker

structure Counter where
  count : UInt64
deriving DecidableEq

namespace Counter

def zero : Counter := ⟨0⟩

def current (c : Counter) : UInt64 := c.count

def next (c : Counter) : Counter := ⟨c.count + 1⟩

def record (c : Counter) : UInt64 × Counter := (c.count, c.next)

inductive Operation where
  | record
  | read
deriving DecidableEq

structure Turn where
  thread : Nat
  operation : Operation
deriving DecidableEq

def apply (c : Counter) : Operation → UInt64 × Counter
  | .record => c.record
  | .read => (c.current, c)

/-- The answer to every turn, in order, and the counter after all of them. -/
def trace (c : Counter) : List Turn → List (Turn × UInt64) × Counter
  | [] => ([], c)
  | t :: rest =>
    let (answer, c) := c.apply t.operation
    let (answers, c) := c.trace rest
    ((t, answer) :: answers, c)

end Counter
end GridWorker
