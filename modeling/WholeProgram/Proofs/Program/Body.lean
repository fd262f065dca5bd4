import Mathlib.Logic.Function.Basic
import WholeProgram.Proofs.ControlFlow.Tables
import WholeProgram.Proofs.Program.Arithmetic

/-!
# Running the body of a method

The small-step semantics of one method, as far as its variables go. A variable holds a 64-bit integer,
some other datum, or nothing yet. Operators compute on integers; what they make of other data is only
known of comparisons, which are true or false. What comes from memory, from calls and from unknown
sources may be any datum. A run stops at a division by zero, and it gets stuck where it reads a
variable that holds nothing.

* `Acts` — what a statement does with its operands, and the kind of edge by which control leaves it;
* `Step` — one step, with what can be seen of it from outside the variables;
* `Run` — runs of any length, with the events on the way.
-/

namespace WholeProgram

namespace Stmt

variable {τ : Type}

/-- The statement gets a datum from elsewhere: a new object, from memory, or from unknown code. -/
def produces : Stmt τ → Bool
  | new _ _ | loadField _ _ _ | loadArray _ _ _ | invoke _ _ | unknown _ _ _ => true
  | _ => false

/-- The statement writes to memory. -/
def stores : Stmt τ → Bool
  | storeField _ _ _ | storeArray _ _ _ => true
  | _ => false

end Stmt

namespace Body

/-- What a variable can hold. -/
inductive Datum where
  | int (c : Int64)
  /-- No integer: a reference, or a floating-point number. -/
  | other (tag : Nat)
deriving DecidableEq, Repr

/-- The variables of a run; those without a datum were not assigned yet. -/
abbrev Vars := VarId → Option Datum

namespace Vars

/-- Puts a datum in a variable, if there are both. -/
def put (vars : Vars) (x : Option VarId) (d : Option Datum) : Vars :=
  match x, d with
  | some x, some d => Function.update vars x (some d)
  | _, _ => vars

/-- The variables hold these data, all of them. -/
def Reads (vars : Vars) (xs : List VarId) (ds : List Datum) : Prop := xs.map vars = ds.map some

end Vars

/-- What may come of an operation; `none` is the end of the run. -/
inductive Computes (op : BinaryOp) : Datum → Datum → Option Datum → Prop
  | zero {d : Datum} : op.divides = true → Computes op d (.int 0) none
  | ints {x y c : Int64} : op.onInts? x y = some c → Computes op (.int x) (.int y) (some (.int c))
  | compared {d e : Datum} (b : Bool) : (∀ x y, ¬ (d = .int x ∧ e = .int y)) →
      op.family = .ok .condition → Computes op d e (some (.int (BinaryOp.ofBool b)))
  | anything {d e : Datum} (r : Datum) : (∀ x y, ¬ (d = .int x ∧ e = .int y)) →
      op.family ≠ .ok .condition → ¬ (op.divides = true ∧ e = .int 0) → Computes op d e (some r)
  /-- Nothing is known of operators that do not exist. -/
  | undeclared {d e : Datum} (r : Datum) : op.isDeclared = false → Computes op d e (some r)

/-- The outcome of a condition that has this datum: integers are true unless zero. -/
def Decides (r : Datum) (b : Bool) : Prop := ∀ c, r = .int c → b = decide (c ≠ 0)

/-- The kind of edge that a switch takes: that of the case with its integer, else the default. -/
def Selects (cases : List (Int64 × Nat)) (d : Datum) (k : EdgeKind) : Prop :=
  ∀ c, d = .int c → k = if c ∈ cases.map (·.1) then .switchCase c else .switchDefault

/-- What a statement does with its operands: the kind of edge by which control leaves it, and the datum
that it defines. -/
inductive Acts : Stmt Nat → List Datum → EdgeKind → Option Datum → Prop
  | nop : Acts .nop [] .fallThrough none
  | literal {x : VarId} {c : Int64} : Acts (.literal x c) [] .fallThrough (some (.int c))
  | copy {x y : VarId} {d : Datum} : Acts (.copy x y) [d] .fallThrough (some d)
  | binary {x y z : VarId} {op : BinaryOp} {d e r : Datum} : Computes op d e (some r) →
      Acts (.binary x op y z) [d, e] .fallThrough (some r)
  | produce {s : Stmt Nat} {ds : List Datum} (d : Datum) : s.produces = true →
      Acts s ds .fallThrough (some d)
  | store {s : Stmt Nat} {ds : List Datum} : s.stores = true → Acts s ds .fallThrough none
  | branch {op : BinaryOp} {x y : VarId} {t : Nat} {d e r : Datum} (b : Bool) :
      Computes op d e (some r) → Decides r b →
      Acts (.branch op x y t) [d, e] (if b then .ifTrue else .ifFalse) none
  | jump {t : Nat} : Acts (.jump t) [] .jump none
  | switch {x : VarId} {cases : List (Int64 × Nat)} {t : Nat} {d : Datum} {k : EdgeKind} :
      Selects cases d k → Acts (.switch x cases t) [d] k none

/-- The statement divides its operands by zero. -/
inductive Stops : Stmt Nat → List Datum → Prop
  | binary {x y z : VarId} {op : BinaryOp} {d e : Datum} : Computes op d e none →
      Stops (.binary x op y z) [d, e]
  | branch {op : BinaryOp} {x y : VarId} {t : Nat} {d e : Datum} : Computes op d e none →
      Stops (.branch op x y t) [d, e]

/-- What can be seen of a statement from outside the variables: the statement, its operands, and the
datum that it gets. -/
def effect (s : Stmt Nat) (ds : List Datum) (d : Option Datum) :
    Option (Stmt Nat × List Datum × Option Datum) :=
  if s.produces || s.stores then some (s, ds, d) else none

/-- What can be seen of a step. -/
structure Event where
  node : Nat
  /-- How control leaves the node; the run stops if it does not. -/
  leaves : Option EdgeKind
  effect : Option (Stmt Nat × List Datum × Option Datum)

inductive State where
  /-- About to execute the statement of a node. -/
  | running (node : Nat) (vars : Vars)
  | returned (value : Option Datum)
  /-- Ended by a division by zero. -/
  | stopped (node : Nat)

/-- One step of a run. -/
inductive Step (m : Method) : State → Event → State → Prop
  | go {n : Nat} {vars : Vars} {ds : List Datum} {k : EdgeKind} {d : Option Datum} {e : Edge} :
      vars.Reads (m.stmtAt n).uses ds → Acts (m.stmtAt n) ds k d →
      (m.outEdges n).find? (·.kind = k) = some e →
      Step m (.running n vars) ⟨n, some k, effect (m.stmtAt n) ds d⟩
        (.running e.target (vars.put (m.stmtAt n).defined? d))
  | ret {n : Nat} {vars : Vars} {ds : List Datum} {v : Option VarId} :
      m.stmtAt n = .ret v → vars.Reads v.toList ds →
      Step m (.running n vars) ⟨n, some .ret, none⟩ (.returned ds.head?)
  | stop {n : Nat} {vars : Vars} {ds : List Datum} :
      vars.Reads (m.stmtAt n).uses ds → Stops (m.stmtAt n) ds →
      Step m (.running n vars) ⟨n, none, none⟩ (.stopped n)

/-- The variables before the first statement: the receiver and the parameters hold data, whichever. -/
def Starts (m : Method) (vars : Vars) : Prop :=
  ∀ v, (vars v).isSome = true ↔ v ∈ m.receiver.toList ++ m.params.toList

/-- The runs of a method from its first statement on, with these variables. -/
inductive Run (m : Method) (vars : Vars) : List Event → State → Prop
  | start : Run m vars [] (.running 1 vars)
  | step {es : List Event} {e : Event} {s t : State} : Run m vars es s → Step m s e t →
      Run m vars (es ++ [e]) t

/-! ## Variables -/

namespace Vars

variable {vars vars' : Vars} {x : Option VarId} {d : Option Datum} {v w : VarId}

theorem put_of_ne (h : x ≠ some v) : vars.put x d v = vars v := by
  unfold put
  split
  · rename_i y r
    exact Function.update_of_ne (fun hv => h (by rw [hv])) _ _
  · rfl

theorem put_self (r : Datum) : vars.put (some v) (some r) v = some r := by
  show Function.update vars v (some r) v = some r
  rw [Function.update_self]

theorem reads_one {r : Datum} : vars.Reads [v] [r] ↔ vars v = some r := by
  simp [Reads]

theorem reads_two {r q : Datum} : vars.Reads [v, w] [r, q] ↔ vars v = some r ∧ vars w = some q := by
  simp [Reads]

/-- What is read of at most one variable is what that variable holds. -/
theorem Reads.of_head? {ds : List Datum} {r : Datum} (h : vars.Reads x.toList ds)
    (hr : ds.head? = some r) : ∃ v, x = some v ∧ vars v = some r := by
  cases ds with
  | nil => cases hr
  | cons q ds =>
    obtain rfl := Option.some.inj hr
    cases x with
    | none => cases h
    | some v => exact ⟨v, rfl, (List.cons.inj h).1⟩

/-- Reading only depends on the variables that are read. -/
theorem Reads.congr {xs : List VarId} {ds : List Datum} (h : vars.Reads xs ds)
    (hsame : ∀ v ∈ xs, vars v = vars' v) : vars'.Reads xs ds :=
  (List.map_congr_left hsame).symm.trans h

end Vars

/-! ## Steps -/

variable {m : Method} {n : Nat}

/-- The variables before the first statement of a method with one parameter. -/
theorem starts_of_param {v : VarId} (hm : m.receiver.toList ++ m.params.toList = [v]) (d : Datum) :
    Starts m (Vars.put (fun _ => none) (some v) (some d)) := by
  intro w
  rw [hm, List.mem_singleton]
  by_cases hw : w = v
  · subst hw
    simp [Vars.put_self]
  · rw [Vars.put_of_ne (by simpa using Ne.symm hw)]
    simp [hw]

/-- A statement that defines a variable gets a datum for it. -/
theorem Acts.defined?_eq_none {s : Stmt Nat} {ds : List Datum} {k : EdgeKind}
    (h : Acts s ds k none) : s.defined? = none := by
  cases h with
  | store hs => cases s <;> first | rfl | cases hs
  | _ => rfl

/-- Control leaves a statement by an edge of the method. -/
theorem edge_of_find? {k : EdgeKind} {e : Edge}
    (h : (m.outEdges n).find? (·.kind = k) = some e) :
    e ∈ m.edges ∧ e.source = n ∧ e.kind = k := by
  have hmem := List.mem_of_find?_eq_some h
  have hsource := Method.source_of_mem_outEdges hmem
  exact ⟨Method.mem_edges.mpr (hsource ▸ hmem), hsource, by simpa using List.find?_some h⟩

/-- A run never comes back to the entry. -/
theorem Run.node_ne_zero {vars vars' : Vars} {es : List Event}
    (h : Run m vars es (.running n vars')) : n ≠ 0 := by
  generalize hs : State.running n vars' = s at h
  cases h with
  | start =>
    cases hs
    exact Nat.one_ne_zero
  | step _ hstep =>
    cases hstep with
    | go _ _ hfind =>
      cases hs
      exact Method.target_ne_zero_of_mem_outEdges (List.mem_of_find?_eq_some hfind)
    | ret | stop => cases hs

/-- A run goes on by what its statement does with its operands. -/
theorem Run.advance {vars vars' : Vars} {es : List Event} {s : Stmt Nat} {ds : List Datum}
    {k : EdgeKind} {d : Option Datum} {t : Nat} (h : Run m vars es (.running n vars'))
    (hacts : Acts s ds k d) (hs : m.stmtAt n = s) (hreads : vars'.Reads s.uses ds)
    (htarget : ((m.outEdges n).find? (·.kind = k)).map (·.target) = some t) :
    ∃ es', Run m vars es' (.running t (vars'.put s.defined? d)) := by
  subst hs
  obtain ⟨e, he, rfl⟩ := Option.map_eq_some_iff.mp htarget
  exact ⟨_, h.step (.go hreads hacts he)⟩

end Body

end WholeProgram
