import WholeProgram.PointsTo.Plugin
import WholeProgram.Taint.Rules

/-!
# Taint as objects

Taint is tracked by the pointer analysis: a call of a source makes its result point to a taint object,
which remembers the call, and flows like any other object. A transfer makes new taint objects for the
taint that reaches its source position.
-/

namespace WholeProgram.Taint

open PointsTo

/-- The taint of a source call. -/
def taintObj (source : Site) (ty : Option Ty) : Obj := Obj.ofMock "TaintObj" (.call source) ty source.method

/-- The call that an object is the taint of. -/
def sourceCall? (o : Obj) : Option Site :=
  match o.key with
  | .mock "TaintObj" (.call s) _ => some s
  | _ => none

/-- The variable at a position of a call site. -/
def varAt? (p : Program) (site : Site) : ArgPosition → Option VarId
  | .base => (p.callAt? site).bind (·.base)
  | .result => p.resultOf? site
  | .arg i => (p.callAt? site).bind (·.args[i]?)

/-- A transfer at a call site. -/
structure Pending where
  site : CSSite
  transfer : Transfer
deriving DecidableEq, Repr

/-- The transfers whose source position is a variable, by variable. -/
abbrev Waiting := Std.HashMap (Context × VarId) (List Pending)

/-- The taint that a transfer passes on for the objects of a set. -/
def passedOn (core : Core) (t : Transfer) (objs : IdSet) : List Obj :=
  objs.toList.filterMap fun o =>
    let obj := core.objOf o
    (sourceCall? obj).map fun s => taintObj s (t.ty <|> obj.ty)

/-- Makes the target of a transfer point to the taint passed on. -/
def transferTaint (p : Program) (core : Core) (t : Pending) (objs : IdSet) : List Request :=
  match passedOn core t.transfer objs, varAt? p t.site.site t.transfer.target with
  | [], _ | _, none => []
  | taints, some v => [.pointTo t.site.ctx v (taints.map fun o => ([], o))]

/-- The taint of a source call in the variable of its result. -/
def sourceTaint (p : Program) (rules : Rules) (e : CSEdge) : List Request :=
  match p.resultOf? e.site.site with
  | none => []
  | some v => (rules.sourcesOf e.callee.method).map fun s =>
      .pointTo e.site.ctx v [([], taintObj e.site.site s.ty)]

/-- Makes a transfer of a call wait at its source variable, and passes on what that has already. -/
def addTransfer (p : Program) (core : Core) (site : CSSite) (waiting : Waiting) (t : Transfer) :
    Waiting × List Request :=
  match varAt? p site.site t.source, varAt? p site.site t.target with
  | some v, some _ =>
    let pending : Pending := { site, transfer := t }
    let here := (waiting[(site.ctx, v)]?).getD []
    if here.contains pending then (waiting, [.touch site.ctx v])
    else
      (waiting.insert (site.ctx, v) (here ++ [pending]),
        .touch site.ctx v :: transferTaint p core pending (core.pointsTo (.var site.ctx v)))
  | _, _ => (waiting, [])

/-- The plugin that tracks taint. -/
def plugin (p : Program) (rules : Rules) : Plugin Waiting where
  initial := {}
  handle event core waiting :=
    match event with
    | .newCallEdge e =>
      (rules.transfersOf e.callee.method).foldl
        (fun (waiting, requests) t =>
          let (waiting, more) := addTransfer p core e.site waiting t
          (waiting, requests ++ more))
        (waiting, sourceTaint p rules e)
    | .newPointsTo ctx v delta =>
      (waiting, ((waiting[(ctx, v)]?).getD []).flatMap fun t => transferTaint p core t delta)
    | _ => (waiting, [])

end WholeProgram.Taint
