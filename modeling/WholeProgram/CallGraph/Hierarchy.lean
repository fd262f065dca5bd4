import WholeProgram.Data.Explore
import WholeProgram.Dataflow.Error

/-!
# The class hierarchy

Which classes are below a class, which method a call on an object of a class runs, and which methods a
call site may run by the declared class alone.
-/

namespace WholeProgram.Program

/-- The class and everything below it, breadth first. -/
def allSubclasses (p : Program) (c : ClassId) : List ClassId :=
  Explore.order p.classes.size p.subclassesOf [c]

/-- A class and its super classes, nearest first; a chain has at most as many classes as there are. -/
def superChain (p : Program) (c : ClassId) : List ClassId :=
  go p.classes.size c
where
  go : Nat → ClassId → List ClassId
    | 0, _ => []
    | fuel + 1, c =>
      c :: match p.superOf c with
        | some s => go fuel s
        | none => []

/-- The concrete method with this subsignature that a class declares. -/
def concreteMethod? (p : Program) (c : ClassId) (subsig : String) : Option MethodId :=
  (p.declaredMethod? c subsig).filter fun m => !(p.method m).isAbstract

/-- The method that a call on an object of class `c` runs: the concrete one with the subsignature in
the nearest class. -/
def dispatch (p : Program) (c : ClassId) (subsig : String) : Option MethodId :=
  (p.superChain c).findSome? fun d => p.concreteMethod? d subsig

/-- Dispatch from every class of a list, up to the first class in which it fails. -/
def dispatchAll (p : Program) (subsig : String) : List ClassId → List MethodId → List MethodId × Option ClassId
  | [], found => (found, none)
  | c :: rest, found =>
    match p.dispatch c subsig with
    | none => (found, some c)
    | some m => dispatchAll p subsig rest (if found.contains m then found else found ++ [m])

/-- The outcome of resolving a call site: the callees found, and the error that ended the search. -/
structure Resolved where
  callees : List MethodId
  error : Option DispatchError

/-- The callees of a call site by the class hierarchy. Static and special calls dispatch from the
class they name, virtual and interface calls from every concrete class below it. -/
def resolve (p : Program) (site : Site) (call : Call) : Except Int Resolved :=
  let missing (c : ClassId) : DispatchError :=
    { kind := call.kind, cls := c, subsig := call.ref.subsig, site := some site }
  match call.kind with
  | .static | .special =>
    match p.dispatch call.ref.cls call.ref.subsig with
    | some m => .ok { callees := [m], error := none }
    | none => .ok { callees := [], error := some (missing call.ref.cls) }
  | .virtual | .interface =>
    let concrete := (p.allSubclasses call.ref.cls).filter fun c => !p.isAbstractClass c
    let (callees, failed) := p.dispatchAll call.ref.subsig concrete []
    .ok { callees, error := failed.map missing }
  | .undeclared n => .error n

/-- The callees of a call site; a site that is no call has none. -/
def resolveSite (p : Program) (site : Site) : Except Int Resolved :=
  match p.callAt? site with
  | some call => p.resolve site call
  | none => .ok { callees := [], error := none }

end WholeProgram.Program
