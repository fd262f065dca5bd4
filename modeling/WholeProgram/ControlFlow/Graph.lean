import WholeProgram.Program.Render

/-!
# Control-flow graphs

The graph of one method: its nodes are the entry, the statements and the exit, and its edges are the
control transfers of the statements. `Method.outEdges` gives them statement by statement; a `Cfg` is
the two tables made from them.
-/

namespace WholeProgram

/-- Kinds of edges; the edge of a case carries its value. -/
inductive EdgeKind where
  | entry
  | fallThrough
  | jump
  | ifTrue
  | ifFalse
  | switchCase (value : Int64)
  | switchDefault
  | ret
deriving DecidableEq, Repr

namespace EdgeKind

/-- The name of the kind, without the value of a case. -/
def name : EdgeKind → String
  | entry => "ENTRY"
  | fallThrough => "FALL_THROUGH"
  | jump => "GOTO"
  | ifTrue => "IF_TRUE"
  | ifFalse => "IF_FALSE"
  | switchCase _ => "SWITCH_CASE"
  | switchDefault => "SWITCH_DEFAULT"
  | ret => "RETURN"

/-- The names of the kinds, by number. -/
def names : List String :=
  [entry, fallThrough, jump, ifTrue, ifFalse, switchCase 0, switchDefault, ret].map name

/-- The name of the kind with a number; other numbers name none. -/
def nameOfCode (n : Int) : Except String String :=
  match n with
  | .ofNat k => match names[k]? with
    | some s => .ok s
    | none => .error ("unknown edge kind " ++ toString n)
  | .negSucc _ => .error ("unknown edge kind " ++ toString n)

def text : EdgeKind → String
  | switchCase v => "SWITCH_CASE(" ++ toString v.toInt ++ ")"
  | k => k.name

end EdgeKind

/-- An edge between two nodes of a method. -/
structure Edge where
  kind : EdgeKind
  source : Nat
  target : Nat
deriving DecidableEq, Repr

namespace Edge

def text (e : Edge) : String :=
  toString (Program.nodeIndex e.source) ++ " -[" ++ e.kind.text ++ "]-> "
    ++ toString (Program.nodeIndex e.target)

end Edge

namespace Method

/-- The edges that leave a node. -/
def outEdges (m : Method) (n : Nat) : List Edge :=
  match n with
  | 0 => [{ kind := .entry, source := 0, target := 1 }]
  | i + 1 =>
    match m.stmt? i with
    | none => []
    | some s =>
      match s with
      | .jump t => [{ kind := .jump, source := n, target := t + 1 }]
      | .branch _ _ _ t =>
        [{ kind := .ifTrue, source := n, target := t + 1 }, { kind := .ifFalse, source := n, target := n + 1 }]
      | .switch _ cases d =>
        cases.map (fun c => { kind := .switchCase c.1, source := n, target := c.2 + 1 })
          ++ [{ kind := .switchDefault, source := n, target := d + 1 }]
      | .ret _ => [{ kind := .ret, source := n, target := m.exit }]
      | _ => [{ kind := .fallThrough, source := n, target := n + 1 }]

/-- All edges, by source. -/
def edges (m : Method) : List Edge := (List.range m.numNodes).flatMap m.outEdges

end Method

/-- The control-flow graph of a method. -/
structure Cfg where
  method : Method
  /-- The edges that leave each node. -/
  outs : Array (List Edge)
  /-- The edges that enter each node. -/
  ins : Array (List Edge)

namespace Cfg

/-- Puts every edge under its target. -/
def insTable (size : Nat) (edges : List Edge) : Array (List Edge) :=
  edges.foldr (fun e table => table.modify e.target (e :: ·)) (Array.replicate size [])

def ofMethod (m : Method) : Cfg where
  method := m
  outs := (Array.range m.numNodes).map m.outEdges
  ins := insTable m.numNodes m.edges

def size (g : Cfg) : Nat := g.method.numNodes

def outEdges (g : Cfg) (n : Nat) : List Edge := g.outs.getD n []

def inEdges (g : Cfg) (n : Nat) : List Edge := g.ins.getD n []

/-- The distinct successors of a node, in the order of its edges. -/
def succs (g : Cfg) (n : Nat) : List Nat := ((g.outEdges n).map (·.target)).eraseDups

/-- The distinct predecessors of a node. -/
def preds (g : Cfg) (n : Nat) : List Nat := ((g.inEdges n).map (·.source)).eraseDups

/-- The predecessors of a statement that may belong to another method. -/
def predsOfNode (p : Program) (m : MethodId) (n : Node) : Except String (List Node) :=
  if n.method = m then
    .ok (((ofMethod (p.method m)).preds n.node).map fun k => { method := m, node := k })
  else
    .error ("statement " ++ p.nodeText n ++ " of " ++ p.methodText n.method
      ++ " is not a node of the CFG of " ++ p.methodText m)

end Cfg

end WholeProgram
