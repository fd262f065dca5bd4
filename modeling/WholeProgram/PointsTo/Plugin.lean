import WholeProgram.PointsTo.Core

/-!
# Requests and plugins

Requests are the ways in which the core learns something: objects that a variable or another pointer shall
point to, and flows between pointers. The rules of the solver make requests, and so do plugins: a plugin is told what
the solver finds and answers with requests. It keeps a state of its own and sees the core, but changes it
by requests only.
-/

namespace WholeProgram.PointsTo

/-- What a plugin is told. -/
inductive Event where
  | start
  | finish
  /-- A method is reachable for the first time, in whatever context. -/
  | newMethod (m : MethodId)
  | newCSMethod (m : CSMethod)
  /-- Objects were added to a variable. -/
  | newPointsTo (ctx : Context) (v : VarId) (delta : IdSet)
  | newCallEdge (e : CSEdge)

/-- What the rules and the plugins ask for. -/
inductive Request where
  /-- The pointer of a variable shall exist. -/
  | touch (ctx : Context) (v : VarId)
  /-- The variable shall point to objects, given with their heap contexts. -/
  | pointTo (ctx : Context) (v : VarId) (objs : List (Context × Obj))
  /-- Objects shall flow into a pointer of whatever kind. -/
  | add (target : Pointer) (objs : List (Context × Obj))
  | flow (source target : Pointer)

/-- A plugin with state `π`. -/
structure Plugin (π : Type) where
  initial : π
  handle : Event → Core → π → π × List Request

namespace Plugin

/-- The plugin that asks for nothing. -/
def none : Plugin Unit where
  initial := ()
  handle _ _ s := (s, [])

end Plugin

namespace Core

/-- Makes the objects of a request. -/
def internAll (s : Core) (objs : List (Context × Obj)) : Core × IdSet :=
  objs.foldl
    (fun (acc : Core × IdSet) o =>
      let (s, i) := acc.1.internHeapObj { ctx := o.1, obj := o.2 }
      (s, acc.2.insert i))
    (s, ∅)

/-- Makes objects wait for a pointer; both are made if they are new. -/
def addObjects (s : Core) (q : Pointer) (objs : List (Context × Obj)) : Core :=
  let (s, set) := s.internAll objs
  (s.touch q).addPointsTo q set

/-- Carries out one request. -/
def carryOut (s : Core) : Request → Core
  | .touch ctx v => s.touch (.var ctx v)
  | .pointTo ctx v objs => s.addObjects (.var ctx v) objs
  | .add target objs => s.addObjects target objs
  | .flow source target => s.addFlow source target

/-- Carries out requests one after the other. -/
def carryOutAll (s : Core) (requests : List Request) : Core := requests.foldl carryOut s

end Core

/-- Two plugins as one. Both are told of every event in turn: the second sees what the first asked for. -/
def Plugin.andThen {π ρ : Type} (first : Plugin π) (second : Plugin ρ) : Plugin (π × ρ) where
  initial := (first.initial, second.initial)
  handle e core s :=
    let (a, requests) := first.handle e core s.1
    let (b, more) := second.handle e (core.carryOutAll requests) s.2
    ((a, b), requests ++ more)

end WholeProgram.PointsTo
