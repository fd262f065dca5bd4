import Mathlib.Logic.Function.Basic
import WholeProgram.CallGraph.Hierarchy
import WholeProgram.ControlFlow.Graph

/-!
# Running programs

The small-step semantics of programs, as far as references go. A state is a memory and a stack of
frames; a value is a reference or nothing. What depends on integers may come out in any way: a
branch goes to any of its targets, an array access reaches any element. So every run of a program is
among the runs here.

* `Effect` — what a statement does to the memory and to the variables of its frame;
* `Step` — one step: a statement, a call, a return, or the start or the end of an entry method;
* `Trace` — runs of any length from the empty memory, with the call edges they take.
-/

namespace WholeProgram.Execution

/-- The position of an object in the heap. -/
abbrev Addr := Nat

/-- The variables of a frame; variables without a reference hold nothing. -/
abbrev Locals := VarId → Option Addr

/-- An object: where it was allocated, with which type, and what it refers to. -/
structure Cell where
  site : Site
  ty : Ty
  fields : FieldId → Option Addr := fun _ => none
  elems : Nat → Option Addr := fun _ => none

structure Memory where
  heap : List Cell := []
  statics : FieldId → Option Addr := fun _ => none

/-- A method that is running, or waiting for the call at its position to return. -/
structure Frame where
  method : MethodId
  pc : Nat
  locals : Locals

structure State where
  memory : Memory := {}
  /-- The running frame first. -/
  stack : List Frame := []

/-- The call that a step makes: its site and the method that it runs. -/
abbrev CallMade := Site × MethodId

def Frame.site (f : Frame) : Site := ⟨f.method, f.pc⟩

/-- The positions that control may go to after a statement. -/
def next (m : Method) (i : Nat) : List Nat := (m.outEdges (i + 1)).map (·.target - 1)

namespace Locals

/-- Puts a value in a variable, if there is one. -/
def put (l : Locals) (x : Option VarId) (v : Option Addr) : Locals :=
  match x with
  | some x => Function.update l x v
  | none => l

/-- The variables at the start of a method: the receiver, and the arguments by position. -/
def enter (m : Method) (recv : Option Addr) (args : List (Option Addr)) : Locals :=
  (m.params.toList.zip args).foldl (fun l x => l.put (some x.1) x.2)
    (put (fun _ => none) m.receiver recv)

theorem put_eq_some {l : Locals} {x : Option VarId} {v : Option Addr} {y : VarId} {a : Addr}
    (h : l.put x v y = some a) : (x = some y ∧ v = some a) ∨ l y = some a := by
  cases x with
  | none => exact Or.inr h
  | some x =>
    by_cases hxy : y = x
    · subst hxy
      rw [put, Function.update_self] at h
      exact Or.inl ⟨rfl, h⟩
    · rw [put, Function.update_of_ne hxy] at h
      exact Or.inr h

/-- A variable that holds a reference at the start is the receiver or a parameter. -/
theorem enter_eq_some {m : Method} {recv : Option Addr} {args : List (Option Addr)} {v : VarId}
    {a : Addr} (h : enter m recv args v = some a) :
    (m.receiver = some v ∧ recv = some a) ∨ ∃ k : Nat, m.params[k]? = some v ∧
    args[k]? = some (some a) := by
  -- a parameter may be written more than once: what counts is that some argument was put there
  have hfold : ∀ (xs : List (VarId × Option Addr)) (l : Locals),
      xs.foldl (fun l x => l.put (some x.1) x.2) l v = some a → l v = some a ∨
        (v, some a) ∈ xs := by
    intro xs
    induction xs with
    | nil => exact fun l h => Or.inl h
    | cons x xs ih =>
      intro l h
      rcases ih _ h with h | h
      · rcases put_eq_some h with ⟨hx, hv⟩ | h
        · obtain ⟨y, w⟩ := x
          cases hx
          cases hv
          exact Or.inr List.mem_cons_self
        · exact Or.inl h
      · exact Or.inr (List.mem_cons_of_mem _ h)
  rcases hfold _ _ h with h | h
  · rcases put_eq_some h with h | h
    · exact Or.inl h
    · cases h
  · obtain ⟨k, hk⟩ := List.mem_iff_getElem?.mp h
    obtain ⟨hv, ha⟩ := List.getElem?_zip_eq_some.mp hk
    exact Or.inr ⟨k, by rwa [Array.getElem?_toList] at hv, ha⟩

end Locals

namespace Memory

def alloc (mem : Memory) (site : Site) (ty : Ty) : Memory :=
  { mem with heap := mem.heap ++ [{ site, ty }] }

def setField (mem : Memory) (a : Addr) (f : FieldId) (v : Option Addr) : Memory :=
  { mem with heap := mem.heap.modify a fun cell =>
      { cell with fields := Function.update cell.fields f v } }

def setElem (mem : Memory) (a : Addr) (n : Nat) (v : Option Addr) : Memory :=
  { mem with heap := mem.heap.modify a fun cell =>
      { cell with elems := Function.update cell.elems n v } }

def setStatic (mem : Memory) (f : FieldId) (v : Option Addr) : Memory :=
  { mem with statics := Function.update mem.statics f v }

end Memory

/-- What a statement other than a call or a return does. -/
inductive Effect (site : Site) (mem : Memory) (l : Locals) : Stmt Nat → Memory → Locals → Prop
  | nop : Effect site mem l .nop mem l
  | literal {x : VarId} {n : Int64} : Effect site mem l (.literal x n) mem (l.put x none)
  | copy {x y : VarId} : Effect site mem l (.copy x y) mem (l.put x (l y))
  | binary {x y z : VarId} {op : BinaryOp} : Effect site mem l (.binary x op y z) mem (l.put x none)
  | new {x : VarId} {t : Ty} :
      Effect site mem l (.new x t) (mem.alloc site t) (l.put x (some mem.heap.length))
  | loadStatic {x : VarId} {f : FieldId} :
      Effect site mem l (.loadField x none f) mem (l.put x (mem.statics f))
  | storeStatic {f : FieldId} {y : VarId} :
      Effect site mem l (.storeField none f y) (mem.setStatic f (l y)) l
  | loadField {x b : VarId} {f : FieldId} {a : Addr} {cell : Cell} :
      l b = some a → mem.heap[a]? = some cell →
      Effect site mem l (.loadField x (some b) f) mem (l.put x (cell.fields f))
  | storeField {b y : VarId} {f : FieldId} {a : Addr} : l b = some a →
      Effect site mem l (.storeField (some b) f y) (mem.setField a f (l y)) l
  | loadArray {x b i : VarId} {a : Addr} {cell : Cell} (n : Nat) :
      l b = some a → mem.heap[a]? = some cell →
      Effect site mem l (.loadArray x b i) mem (l.put x (cell.elems n))
  | storeArray {b i y : VarId} {a : Addr} (n : Nat) : l b = some a →
      Effect site mem l (.storeArray b i y) (mem.setElem a n (l y)) l
  | branch {op : BinaryOp} {x y : VarId} {t : Nat} : Effect site mem l (.branch op x y t) mem l
  | jump {t : Nat} : Effect site mem l (.jump t) mem l
  | switch {x : VarId} {cases : List (Int64 × Nat)} {t : Nat} :
      Effect site mem l (.switch x cases t) mem l
  | unknown {x : Option VarId} {desc : String} {args : List VarId} :
      Effect site mem l (.unknown x desc args) mem (l.put x none)

/-- The method that a call runs on an object of a type. Special calls look it up from the class they
name, all others from the class of the object. -/
def calleeFor (p : Program) (ty : Ty) (call : Call) : Option MethodId :=
  if call.kind = .special then p.dispatch call.ref.cls call.ref.subsig
  else match ty with
    | .ref c => p.dispatch c call.ref.subsig
    | _ => none

namespace Frame

/-- The frame that a call starts. -/
def callee (p : Program) (f : Frame) (m : MethodId) (recv : Option Addr) (args : List VarId) :
    Frame :=
  { method := m, pc := 0, locals := .enter (p.method m) recv (args.map f.locals) }

/-- The frame goes on after its call, with the value that the call returns. -/
def resume (p : Program) (f : Frame) (v : Option Addr) : Frame :=
  { f with pc := f.pc + 1, locals := f.locals.put (p.resultOf? f.site) v }

end Frame

/-- The frame below the one that returns goes on. -/
def returnTo (p : Program) (v : Option Addr) : List Frame → List Frame
  | [] => []
  | f :: rest => f.resume p v :: rest

/-- One step of a run. -/
inductive Step (p : Program) : State → Option CallMade → State → Prop
  /-- An entry method starts, with no object in its receiver and parameters. -/
  | start {mem : Memory} {m : MethodId} : m ∈ p.entries →
      Step p ⟨mem, []⟩ none ⟨mem, [⟨m, 0, fun _ => none⟩]⟩
  | stmt {mem mem' : Memory} {f : Frame} {rest : List Frame} {s : Stmt Nat} {l : Locals} {j : Nat} :
      p.stmt? f.site = some s → Effect f.site mem f.locals s mem' l →
      j ∈ next (p.method f.method) f.pc →
      Step p ⟨mem, f :: rest⟩ none ⟨mem', { f with pc := j, locals := l } :: rest⟩
  /-- A call without receiver runs one of the methods of the class hierarchy. -/
  | call {mem : Memory} {f : Frame} {rest : List Frame} {x : Option VarId} {call : Call}
      {r : Program.Resolved} {m : MethodId} :
      p.stmt? f.site = some (.invoke x call) → call.base = none → p.resolve f.site call = .ok r →
      m ∈ r.callees →
      Step p ⟨mem, f :: rest⟩ (some (f.site, m)) ⟨mem, f.callee p m none call.args :: f :: rest⟩
  /-- A call on an object runs the method that its class gives. -/
  | callOn {mem : Memory} {f : Frame} {rest : List Frame} {x : Option VarId} {call : Call}
      {b : VarId} {a : Addr} {cell : Cell} {m : MethodId} :
      p.stmt? f.site = some (.invoke x call) → call.base = some b → f.locals b = some a →
      mem.heap[a]? = some cell → calleeFor p cell.ty call = some m →
      Step p ⟨mem, f :: rest⟩ (some (f.site, m)) ⟨mem, f.callee p m (some a) call.args :: f :: rest⟩
  | ret {mem : Memory} {f : Frame} {rest : List Frame} {y : Option VarId} :
      p.stmt? f.site = some (.ret y) →
      Step p ⟨mem, f :: rest⟩ none ⟨mem, returnTo p (y.bind f.locals) rest⟩
  /-- A method that comes to the end of its statements, or has none, returns nothing. -/
  | fall {mem : Memory} {f : Frame} {rest : List Frame} : p.stmt? f.site = none →
      Step p ⟨mem, f :: rest⟩ none ⟨mem, returnTo p none rest⟩
  /-- The run of an entry method may end early, as on a base that holds nothing. -/
  | stop {mem : Memory} {stack : List Frame} : Step p ⟨mem, stack⟩ none ⟨mem, []⟩

/-- The states that runs of entry methods, one after the other, lead to, and the call edges on the
way. -/
inductive Trace (p : Program) : List CallMade → State → Prop
  | nil : Trace p [] {}
  | step {calls : List CallMade} {e : Option CallMade} {s s' : State} :
      Trace p calls s → Step p s e s' →
      Trace p (calls ++ e.toList) s'

end WholeProgram.Execution
