import WholeProgram.ControlFlow.Supergraph
import WholeProgram.Proofs.Program.Body

/-!
# Running over a supergraph

The small-step semantics of the methods of a supergraph, as far as their variables go. A state is a stack
of frames, the running one first; the frames below wait for their calls to return. A statement other than
a call does what it does within its method, so that memory gives any datum. A call goes on in any callee
that the supergraph has for it, with the arguments bound to the parameters by position, and where there is
none its result may be anything. A run ends at a division by zero and where it reads a variable that holds
nothing.

* `bind`, `Frame.resume` — what a callee starts with, and how a caller goes on;
* `Returns` — what a caller gets from a callee;
* `Step`, `Run` — one step, and runs of any length and any depth from an entry method.
-/

namespace WholeProgram.Calls

open Body

/-- Sets a variable, if there is one: to a datum, or to nothing. -/
def assign (vars : Vars) (x : Option VarId) (d : Option Datum) : Vars :=
  match x with
  | some x => Function.update vars x d
  | none => vars

/-- The variables at the start of a method: its receiver, and its parameters by position, as far as there
are arguments. -/
def bind (m : Method) (recv : Option Datum) (args : List Datum) : Vars :=
  (m.params.toList.zip args).foldl (fun vars b => Function.update vars b.1 (some b.2))
    (assign (fun _ => none) m.receiver recv)

/-- A method that is running, or waiting for the call at its node to return. -/
structure Frame where
  method : MethodId
  node : Nat
  vars : Vars

namespace Frame

def place (f : Frame) : Node := ⟨f.method, f.node⟩

/-- The frame goes on after its call, with the datum that it gets. -/
def resume (p : Program) (f : Frame) (d : Option Datum) : Frame :=
  { f with node := f.node + 1, vars := assign f.vars (p.stmtAt f.place).defined? d }

end Frame

/-- The frame below the one that returns goes on. -/
def returnTo (p : Program) (d : Option Datum) : List Frame → List Frame
  | [] => []
  | f :: rest => f.resume p d :: rest

/-- What a caller gets: the datum that was returned, if the method has variables to return, else whatever
it is. -/
inductive Returns (m : Method) : Option Datum → Option Datum → Prop
  | value {v : Option Datum} : m.returnVars ≠ [] → Returns m v v
  | unknown {v : Option Datum} (d : Datum) : m.returnVars = [] → Returns m v (some d)

/-- One step of a run. -/
inductive Step (p : Program) (g : Supergraph) : List Frame → List Frame → Prop
  /-- A statement other than a call. -/
  | go {f : Frame} {rest : List Frame} {ds : List Datum} {k : EdgeKind} {d : Option Datum} {e : Edge} :
      (p.stmtAt f.place).call? = none → f.vars.Reads (p.stmtAt f.place).uses ds →
      Acts (p.stmtAt f.place) ds k d →
      ((p.method f.method).outEdges f.node).find? (·.kind = k) = some e →
      Step p g (f :: rest)
        ({ f with node := e.target, vars := f.vars.put (p.stmtAt f.place).defined? d } :: rest)
  /-- A call goes on in one of its callees. -/
  | call {f : Frame} {rest : List Frame} {s : Site} {call : Call} {m : MethodId} {bs ds : List Datum} :
      s.node = f.place → p.callAt? s = some call → f.vars.Reads call.base.toList bs →
      f.vars.Reads call.args ds → m ∈ g.calleesOf s →
      Step p g (f :: rest) (⟨m, 1, bind (p.method m) bs.head? ds⟩ :: f :: rest)
  /-- A call without callees. -/
  | skip {f : Frame} {rest : List Frame} {s : Site} {call : Call} {bs ds : List Datum} (d : Datum) :
      s.node = f.place → p.callAt? s = some call → f.vars.Reads call.base.toList bs →
      f.vars.Reads call.args ds → g.calleesOf s = [] →
      Step p g (f :: rest) (f.resume p (some d) :: rest)
  | ret {f : Frame} {rest : List Frame} {y : Option VarId} {ds : List Datum} {d : Option Datum} :
      p.stmtAt f.place = .ret y → f.vars.Reads y.toList ds → Returns (p.method f.method) ds.head? d →
      Step p g (f :: rest) (returnTo p d rest)
  /-- A method that comes to its exit otherwise returns nothing. -/
  | fall {f : Frame} {rest : List Frame} {d : Option Datum} : f.node = (p.method f.method).exit →
      Returns (p.method f.method) none d → Step p g (f :: rest) (returnTo p d rest)

/-- The stacks that runs lead to. A run starts in an entry method, and its receiver and its parameters
hold whatever they do. -/
inductive Run (p : Program) (g : Supergraph) : List Frame → Prop
  | start {m : MethodId} {vars : Vars} : m ∈ g.entries → m ∈ g.methods → Starts (p.method m) vars →
      Run p g [⟨m, 1, vars⟩]
  | step {fs fs' : List Frame} : Run p g fs → Step p g fs fs' → Run p g fs'

/-! ## Variables -/

theorem assign_of_ne {vars : Vars} {x : Option VarId} {d : Option Datum} {v : VarId} (h : x ≠ some v) :
    assign vars x d v = vars v := by
  cases x with
  | none => rfl
  | some x => exact Function.update_of_ne (fun hv => h (by rw [hv])) _ _

theorem assign_self {vars : Vars} {d : Option Datum} {v : VarId} : assign vars (some v) d v = d :=
  Function.update_self _ _ _

end WholeProgram.Calls
