import WholeProgram.Data.Queue

/-!
# Equation systems and their worklist solver

A system gives each of `size` nodes an input fact, computed from the facts of the others, and an
output fact, computed from the input. The solver keeps both, visits the waiting nodes first in first
out, and makes the dependents of a node wait again when its output changed. Boundary nodes keep the
output they start with and are never visited.

The solver stops at a fixed point, at the iteration limit, or at a fault of the node it visits; which
of them is part of the outcome. `visits` is a number of visits that suffices, so that the loop needs
no other fuel.
-/

namespace WholeProgram

/-- The facts of all nodes. -/
structure Facts (F : Type) where
  ins : Array F
  outs : Array F

namespace Facts

variable {F : Type} [Inhabited F]

def input (s : Facts F) (n : Nat) : F := s.ins.getD n default

def output (s : Facts F) (n : Nat) : F := s.outs.getD n default

def setInput (s : Facts F) (n : Nat) (f : F) : Facts F := { s with ins := s.ins.setIfInBounds n f }

def setOutput (s : Facts F) (n : Nat) (f : F) : Facts F := { s with outs := s.outs.setIfInBounds n f }

end Facts

/-- An equation system over the nodes below `size`. -/
structure System (F ε : Type) where
  size : Nat
  isBoundary : Nat → Bool
  /-- The input fact of every node before the first visit. -/
  initial : F
  /-- The output fact of a node before the first visit. -/
  start : Nat → F
  /-- The input fact of a node, from the current facts. -/
  input : Facts F → Nat → F
  /-- What makes a visit fail. -/
  fault : Nat → F → Option ε
  /-- The output fact of a node, from its input fact and the current facts. -/
  transfer : Facts F → Nat → F → F
  /-- The nodes whose facts depend on the output of a node. -/
  dependents : Nat → List Nat
  /-- A number of visits that suffices. -/
  visits : Nat

/-- Why a solver stopped before a fixed point. -/
inductive Stop (ε : Type) where
  /-- More than this many visits. -/
  | limit (bound : Int)
  | fault (e : ε)
  /-- More visits than the system said would suffice. -/
  | unfinished

/-- Where a solver stands. -/
structure SolverState (F : Type) where
  facts : Facts F
  waiting : Queue Nat
  iterations : Nat := 0
  /-- The visited nodes, and whether their outputs changed. -/
  visited : Array (Nat × Bool) := #[]

namespace System

variable {F ε : Type} [Inhabited F] [DecidableEq F]

/-- The state before the first visit: all nodes wait but the boundary. -/
def begin (S : System F ε) : SolverState F where
  facts :=
    { ins := Array.replicate S.size S.initial
      outs := (Array.range S.size).map S.start }
  waiting := Queue.ofList ((List.range S.size).filter fun n => !S.isBoundary n)

/-- One visit of node `n`, and the fault if it fails. -/
def visit (S : System F ε) (s : SolverState F) (n : Nat) : SolverState F × Option ε :=
  let input := S.input s.facts n
  let facts := s.facts.setInput n input
  match S.fault n input with
  | some e => ({ s with facts }, some e)
  | none =>
    let output := S.transfer facts n input
    let changed := decide (output ≠ facts.output n)
    let woken := if changed then (S.dependents n).filter fun d => !S.isBoundary d else []
    ({ facts := facts.setOutput n output
       waiting := s.waiting.pushAll woken
       iterations := s.iterations + 1
       visited := s.visited.push (n, changed) }, none)

/-- Another visit after `iterations` of them is over the limit; a limit that is not positive is none. -/
def overLimit (limit : Int) (iterations : Nat) : Bool := decide (0 < limit ∧ limit < iterations + 1)

/-- Visits waiting nodes until none is left. -/
def loop (S : System F ε) (limit : Int) : Nat → SolverState F → SolverState F × Option (Stop ε)
  | 0, s => (s, if s.waiting.isEmpty then none else some .unfinished)
  | fuel + 1, s =>
    match s.waiting.pop? with
    | none => (s, none)
    | some (n, rest) =>
      if overLimit limit s.iterations then
        (s, some (.limit limit))
      else
        match S.visit { s with waiting := rest } n with
        | (s, some e) => (s, some (.fault e))
        | (s, none) => loop S limit fuel s

/-- Solves a system, within a limit on the number of visits. -/
def solve (S : System F ε) (limit : Int) : SolverState F × Option (Stop ε) :=
  S.loop limit S.visits S.begin

end System

end WholeProgram
