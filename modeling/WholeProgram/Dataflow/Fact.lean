import Std.Data.ExtTreeMap
import WholeProgram.Dataflow.Value
import WholeProgram.Program.Type

/-!
# Facts about constants

A fact binds variables to constants or to "not a constant"; a variable without a binding is undefined.
Facts with the same values are equal.
-/

namespace WholeProgram

/-- What a binding can say: a bound variable is never undefined. -/
inductive Known where
  | const (c : Int64)
  | nac
deriving DecidableEq, Repr

namespace Known

def value : Known → Value
  | const c => .const c
  | nac => .nac

end Known

/-- What is known of the variables at one place. -/
structure Fact where
  map : Std.ExtTreeMap VarId Known compare
deriving DecidableEq

namespace Fact

def empty : Fact := ⟨∅⟩

instance : Inhabited Fact := ⟨empty⟩

/-- The value of a variable. -/
def get (f : Fact) (v : VarId) : Value :=
  match f.map[v]? with
  | some k => k.value
  | none => .undefined

/-- Sets the value of a variable. -/
def update (f : Fact) (v : VarId) : Value → Fact
  | .undefined => ⟨f.map.erase v⟩
  | .const c => ⟨f.map.insert v (.const c)⟩
  | .nac => ⟨f.map.insert v .nac⟩

/-- Forgets a variable. -/
def remove (f : Fact) (v : VarId) : Fact := ⟨f.map.erase v⟩

/-- The bound variables in increasing order, with their values. -/
def toList (f : Fact) : List (VarId × Value) := f.map.toList.map fun b => (b.1, b.2.value)

/-- The bound variables in increasing order. -/
def keys (f : Fact) : List VarId := f.map.keys

def size (f : Fact) : Nat := f.map.size

/-- The fact that holds when one of two facts does. -/
def join (f g : Fact) : Fact :=
  f.toList.foldl (fun acc b => acc.update b.1 (b.2.join (acc.get b.1))) g

def text (name : VarId → String) (f : Fact) : String :=
  "\x7b" ++ ", ".intercalate (f.toList.map fun b => name b.1 ++ "=" ++ b.2.text) ++ "\x7d"

end Fact

end WholeProgram
