import WholeProgram.Program.Basic

/-!
# Size of a program

Counts of the classes, methods and statements of a program.
-/

namespace WholeProgram

structure Statistics where
  classes : Nat
  interfaces : Nat
  methods : Nat
  /-- Methods with a body. -/
  nonempty : Nat
  statements : Nat
  allocations : Nat
  /-- Statements whose meaning is not described. -/
  unknown : Nat
  callSites : Nat

namespace Program

/-- All statements, method by method. -/
def allStmts (p : Program) : List (Stmt Nat) :=
  p.methods.toList.flatMap fun m => m.body.toList.map (·.stmt)

/-- Number of call sites of a kind. -/
def callSitesOfKind (p : Program) (k : CallKind) : Nat :=
  p.allStmts.countP fun s => (s.call?.map (·.kind)) == some k

/-- The kinds of the call sites, each once, in order of appearance. -/
def callKinds (p : Program) : List CallKind :=
  (p.allStmts.filterMap fun s => s.call?.map (·.kind)).eraseDups

def statistics (p : Program) : Statistics where
  classes := p.classes.toList.countP fun c => !c.isInterface
  interfaces := p.classes.toList.countP fun c => c.isInterface
  methods := p.methods.size
  nonempty := p.methods.toList.countP fun m => !m.body.isEmpty
  statements := p.allStmts.length
  allocations := p.allStmts.countP fun s => match s with | .new _ _ => true | _ => false
  unknown := p.allStmts.countP fun s => match s with | .unknown _ _ _ => true | _ => false
  callSites := p.allStmts.countP fun s => s.call?.isSome

end Program

end WholeProgram
