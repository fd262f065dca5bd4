import Std.Data.HashMap
import Std.Data.HashSet
import WholeProgram.CallGraph.Basic
import WholeProgram.Data.IdSet
import WholeProgram.Program.Basic

/-!
# Objects, contexts and pointers

An allocation site stands for all objects it allocates. Clients may add objects of their own, which are
known by what they were made for.

A context is a list of call sites, objects or types, oldest first. A selector says which context a
callee and an allocated object get; the lists are cut to their last elements. `Context.last` is the cut:
the last `n` elements, none when `n` is not positive.

Objects and methods are qualified by contexts; pointers are the places that hold objects. Objects are
numbered, and so are objects in contexts: a `CSObj` is one by the number of its object, a `HeapObj` is one
by what it is.
-/

namespace WholeProgram.PointsTo

/-! ## Objects -/

/-- Position of an object in the heap model. -/
abbrev ObjId := Nat

/-- What an object of a client was made for. -/
inductive Source where
  | text (s : String)
  | call (s : Site)
deriving DecidableEq, Repr, Hashable

/-- What makes an object one and the same. -/
inductive ObjKey where
  /-- The object of an allocation site. -/
  | alloc (site : Site)
  /-- An object of a client. -/
  | mock (desc : String) (source : Source) (ty : Option Ty)
deriving DecidableEq, Repr, Hashable

instance : Inhabited ObjKey := ⟨.alloc default⟩

/-- An abstract object. -/
structure Obj where
  key : ObjKey
  ty : Option Ty
  /-- The method that allocates it, or that a client put it under. -/
  container : Option MethodId
deriving Repr, Inhabited, DecidableEq, Hashable

namespace Obj

def isMock (o : Obj) : Bool :=
  match o.key with
  | .alloc _ => false
  | .mock _ _ _ => true

def desc (o : Obj) : String :=
  match o.key with
  | .alloc _ => ""
  | .mock d _ _ => d

/-- The type that stands for the object in contexts: the class of its container, if it has one. -/
def containerType (p : Program) (o : Obj) : Option Ty :=
  match o.container with
  | some m => some (.ref (p.method m).cls)
  | none => o.ty

/-- The object of an allocation site. -/
def ofAlloc (site : Site) (ty : Ty) : Obj :=
  { key := .alloc site, ty := some ty, container := some site.method }

/-- An object of a client. -/
def ofMock (desc : String) (source : Source) (ty : Option Ty) (container : Option MethodId) : Obj :=
  { key := .mock desc source ty, ty, container }

end Obj

/-! ## Contexts -/

/-- An element of a context. -/
inductive Elem where
  | site (s : Site)
  | obj (o : Obj)
  /-- The class of the allocating method, or the type of an object that none allocates. -/
  | ty (t : Option Ty)
deriving DecidableEq, Repr, Hashable

abbrev Context := List Elem

namespace Context

/-- The last `n` elements. -/
def last (n : Int) (c : Context) : Context := c.drop (c.length - n.toNat)

/-- The context with one more element, cut to the last `n`. -/
def extend (c : Context) (e : Elem) (n : Int) : Context := last n (c ++ [e])

end Context

/-- What contexts are made of. -/
inductive Sensitivity where
  /-- One context for all. -/
  | insensitive
  | callSite
  | object
  | type
deriving DecidableEq, Repr

/-- Chooses contexts: at most `k` elements for methods and `hk` for objects. -/
structure Selector where
  sensitivity : Sensitivity := .insensitive
  k : Int := 0
  hk : Int := 0
deriving DecidableEq, Repr

namespace Selector

/-- The selector of a configuration. -/
def ofName? (name : String) (k hk : Int) : Option Selector :=
  match name with
  | "ci" | "" => some { sensitivity := .insensitive }
  | "k-call" => some { sensitivity := .callSite, k, hk }
  | "k-obj" => some { sensitivity := .object, k, hk }
  | "k-type" => some { sensitivity := .type, k, hk }
  | _ => none

/-- The name of the selector in messages. -/
def title (s : Selector) : String :=
  match s.sensitivity with
  | .insensitive => "*pta.InsensitiveSelector"
  | .callSite => "*pta.KCallSelector"
  | .object => "*pta.KObjSelector"
  | .type => "*pta.KTypeSelector"

/-- The context of the callee of a call without receiver. -/
def staticContext (s : Selector) (caller : Context) (site : Site) : Context :=
  match s.sensitivity with
  | .insensitive => []
  | .callSite => caller.extend (.site site) s.k
  | .object | .type => caller

/-- The context of the callee of a call on a receiver: an object with its heap context and the type
that stands for it. -/
def instanceContext (s : Selector) (caller : Context) (site : Site) (recvContext : Context) (recv : Obj)
    (recvType : Option Ty) : Context :=
  match s.sensitivity with
  | .insensitive => []
  | .callSite => caller.extend (.site site) s.k
  | .object => recvContext.extend (.obj recv) s.k
  | .type => recvContext.extend (.ty recvType) s.k

/-- The context of an object that a method allocates in its own context. -/
def heapContext (s : Selector) (method : Context) : Context :=
  match s.sensitivity with
  | .insensitive => []
  | .callSite | .object | .type => method.last s.hk

end Selector

/-! ## Objects in contexts and pointers -/

/-- An object in a heap context. -/
structure HeapObj where
  ctx : Context
  obj : Obj
deriving DecidableEq, Repr, Hashable, Inhabited

/-- An object in a heap context, by the number of the object. -/
structure CSObj where
  ctx : Context
  obj : ObjId
deriving DecidableEq, Repr, Hashable, Inhabited

/-- Position of an object in a context. -/
abbrev CSObjId := Nat

/-- A method in a context. -/
structure CSMethod where
  ctx : Context
  method : MethodId
deriving DecidableEq, Repr, Hashable, Inhabited

/-- A call site in the context of its method. -/
structure CSSite where
  ctx : Context
  site : Site
deriving DecidableEq, Repr, Hashable, Inhabited

/-- A place that holds objects. -/
inductive Pointer where
  | var (ctx : Context) (v : VarId)
  | field (base : HeapObj) (f : FieldId)
  | static (f : FieldId)
  /-- All elements of an array. -/
  | array (base : HeapObj)
deriving DecidableEq, Repr, Hashable

instance : Inhabited Pointer := ⟨.static 0⟩

/-- Call graphs in contexts. -/
abbrev CSCallGraph := CallGraph CSSite CSMethod

abbrev CSEdge := CallEdge CSSite CSMethod

end WholeProgram.PointsTo
