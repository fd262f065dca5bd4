import WholeProgram.Proofs.Program.Calls
import WholeProgram.Proofs.Program.Execution
import WholeProgram.Proofs.Program.Places

/-!
# Running programs with integers and objects

The small-step semantics of whole programs. A datum is a 64-bit integer or the address of an object. Only
`new` makes objects: what comes from unknown sources, and what a method returns that has no variable to
return, may be any integer, but no object. A run ends where it divides by zero, reads a variable or a cell
that holds nothing, or calls on a receiver that holds no object or has no callee.

* `Effect` — what a statement does with its operands, to memory and to the variable that it defines;
* `Step`, `Run` — one step, with the call that it makes, and runs of any length from the empty memory;
* `Step.erase`, `Run.erase` — without the integers, these are runs of references (`Execution.Trace`).
-/

namespace WholeProgram

/-- The object of a datum, unless it is an integer. -/
def Body.Datum.ref? : Body.Datum → Option Execution.Addr
  | .int _ => none
  | .other a => some a

namespace Objects

open Body Calls
open Execution (Addr CallMade)

/-- An object: where it was allocated, with which type, and what was stored into it. -/
structure Cell where
  site : Site
  ty : Ty
  fields : FieldId → Option Datum := fun _ => none
  elems : Int64 → Option Datum := fun _ => none

structure Memory where
  heap : List Cell := []
  statics : FieldId → Option Datum := fun _ => none

structure State where
  memory : Memory := {}
  /-- The running frame first. -/
  stack : List Frame := []

namespace Memory

def alloc (mem : Memory) (site : Site) (ty : Ty) : Memory :=
  { mem with heap := mem.heap ++ [{ site, ty }] }

def setField (mem : Memory) (a : Addr) (f : FieldId) (d : Datum) : Memory :=
  { mem with heap := mem.heap.modify a fun cell =>
      { cell with fields := Function.update cell.fields f (some d) } }

def setElem (mem : Memory) (a : Addr) (i : Int64) (d : Datum) : Memory :=
  { mem with heap := mem.heap.modify a fun cell =>
      { cell with elems := Function.update cell.elems i (some d) } }

def setStatic (mem : Memory) (f : FieldId) (d : Datum) : Memory :=
  { mem with statics := Function.update mem.statics f (some d) }

end Memory

/-- What a statement other than a call or a return does with its operands: the kind of edge by which
control leaves it, the memory after it, and the datum that it defines. -/
inductive Effect (site : Site) (mem : Memory) :
    Stmt Nat → List Datum → EdgeKind → Memory → Option Datum → Prop
  /-- A statement that neither gets a datum from elsewhere nor stores one. It passes an object on only if
  it is a copy. -/
  | plain {s : Stmt Nat} {ds : List Datum} {k : EdgeKind} {d : Option Datum} :
      s.produces = false → s.stores = false → Acts s ds k d →
      (∀ a, d = some (.other a) → ∃ x y, s = .copy x y) → Effect site mem s ds k mem d
  | unknown {x : Option VarId} {desc : String} {args : List VarId} {ds : List Datum} (c : Int64) :
      Effect site mem (.unknown x desc args) ds .fallThrough mem (some (.int c))
  | new {x : VarId} {t : Ty} :
      Effect site mem (.new x t) [] .fallThrough (mem.alloc site t) (some (.other mem.heap.length))
  | loadStatic {x : VarId} {f : FieldId} {d : Datum} : mem.statics f = some d →
      Effect site mem (.loadField x none f) [] .fallThrough mem (some d)
  | storeStatic {f : FieldId} {y : VarId} {d : Datum} :
      Effect site mem (.storeField none f y) [d] .fallThrough (mem.setStatic f d) none
  | loadField {x b : VarId} {f : FieldId} {a : Addr} {cell : Cell} {d : Datum} :
      mem.heap[a]? = some cell → cell.fields f = some d →
      Effect site mem (.loadField x (some b) f) [.other a] .fallThrough mem (some d)
  | storeField {b y : VarId} {f : FieldId} {a : Addr} {d : Datum} :
      Effect site mem (.storeField (some b) f y) [.other a, d] .fallThrough (mem.setField a f d) none
  | loadArray {x b j : VarId} {a : Addr} {i : Int64} {cell : Cell} {d : Datum} :
      mem.heap[a]? = some cell → cell.elems i = some d →
      Effect site mem (.loadArray x b j) [.other a, .int i] .fallThrough mem (some d)
  | storeArray {b j y : VarId} {a : Addr} {i : Int64} {d : Datum} :
      Effect site mem (.storeArray b j y) [.other a, .int i, d] .fallThrough (mem.setElem a i d) none

/-- One step of a run, with the call that it makes. -/
inductive Step (p : Program) : State → Option CallMade → State → Prop
  /-- An entry method starts. Its parameters hold integers, or nothing. -/
  | start {mem : Memory} {m : MethodId} {vars : Vars} : m ∈ p.entries →
      (∀ v d, vars v = some d → v ∈ (p.method m).params ∧ ∃ c, d = .int c) →
      Step p ⟨mem, []⟩ none ⟨mem, [⟨m, 1, vars⟩]⟩
  | go {mem mem' : Memory} {f : Frame} {rest : List Frame} {ds : List Datum} {k : EdgeKind}
      {d : Option Datum} {e : Edge} :
      f.vars.Reads (p.stmtAt f.place).uses ds →
      Effect ⟨f.method, f.node - 1⟩ mem (p.stmtAt f.place) ds k mem' d →
      ((p.method f.method).outEdges f.node).find? (·.kind = k) = some e →
      Step p ⟨mem, f :: rest⟩ none
        ⟨mem', { f with node := e.target, vars := f.vars.put (p.stmtAt f.place).defined? d } :: rest⟩
  /-- A call without receiver runs one of the methods of the class hierarchy. -/
  | call {mem : Memory} {f : Frame} {rest : List Frame} {s : Site} {call : Call}
      {r : Program.Resolved} {m : MethodId} {ds : List Datum} :
      s.node = f.place → p.callAt? s = some call → call.base = none → f.vars.Reads call.args ds →
      p.resolve s call = .ok r → m ∈ r.callees →
      Step p ⟨mem, f :: rest⟩ (some (s, m)) ⟨mem, ⟨m, 1, bind (p.method m) none ds⟩ :: f :: rest⟩
  /-- A call on an object runs the method that its class gives. -/
  | callOn {mem : Memory} {f : Frame} {rest : List Frame} {s : Site} {call : Call} {b : VarId} {a : Addr}
      {cell : Cell} {m : MethodId} {ds : List Datum} :
      s.node = f.place → p.callAt? s = some call → call.base = some b → f.vars b = some (.other a) →
      mem.heap[a]? = some cell → f.vars.Reads call.args ds →
      Execution.calleeFor p cell.ty call = some m →
      Step p ⟨mem, f :: rest⟩ (some (s, m))
        ⟨mem, ⟨m, 1, bind (p.method m) (some (.other a)) ds⟩ :: f :: rest⟩
  | ret {mem : Memory} {f : Frame} {rest : List Frame} {y : Option VarId} {ds : List Datum}
      {d : Option Datum} :
      p.stmtAt f.place = .ret y → f.vars.Reads y.toList ds → Returns (p.method f.method) ds.head? d →
      (∀ a, d = some (.other a) → ds.head? = d) → Step p ⟨mem, f :: rest⟩ none ⟨mem, returnTo p d rest⟩
  /-- A method that comes to its exit otherwise returns nothing. -/
  | fall {mem : Memory} {f : Frame} {rest : List Frame} {d : Option Datum} :
      f.node = (p.method f.method).exit → Returns (p.method f.method) none d →
      (∀ a, d ≠ some (.other a)) → Step p ⟨mem, f :: rest⟩ none ⟨mem, returnTo p d rest⟩

/-- The states that runs of entry methods, one after the other, lead to, and the calls on the way. -/
inductive Run (p : Program) : List CallMade → State → Prop
  | nil : Run p [] {}
  | step {calls : List CallMade} {e : Option CallMade} {s s' : State} :
      Run p calls s → Step p s e s' → Run p (calls ++ e.toList) s'

/-- What a statement does with its operands, it also does where memory may give any datum. -/
theorem Effect.acts {site : Site} {mem mem' : Memory} {s : Stmt Nat} {ds : List Datum} {k : EdgeKind}
    {d : Option Datum} (h : Effect site mem s ds k mem' d) : Acts s ds k d := by
  cases h with
  | plain _ _ hacts => exact hacts
  | unknown | new | loadStatic | loadField | loadArray => exact .produce _ rfl
  | storeStatic | storeField | storeArray => exact .store rfl

theorem Effect.call?_eq_none {site : Site} {mem mem' : Memory} {s : Stmt Nat} {ds : List Datum}
    {k : EdgeKind} {d : Option Datum} (h : Effect site mem s ds k mem' d) : s.call? = none := by
  cases h with
  | plain hproduces =>
    cases s with
    | invoke => cases hproduces
    | _ => rfl
  | _ => rfl

/-! ## Runs without the integers -/

/-- The references that variables hold. -/
def eraseVars (vars : Vars) : Execution.Locals := fun v => (vars v).bind Datum.ref?

/-- The references that an array holds, by their indexes as unsigned integers. -/
def eraseElems (elems : Int64 → Option Datum) (n : Nat) : Option Addr :=
  if n < 2 ^ 64 then (elems (Int64.ofNat n)).bind Datum.ref? else none

/-- The object with its references only. -/
def Cell.erase (cell : Cell) : Execution.Cell where
  site := cell.site
  ty := cell.ty
  fields f := (cell.fields f).bind Datum.ref?
  elems := eraseElems cell.elems

def Memory.erase (mem : Memory) : Execution.Memory where
  heap := mem.heap.map Cell.erase
  statics f := (mem.statics f).bind Datum.ref?

/-- The statement of a node is at the position before. -/
def eraseFrame (f : Frame) : Execution.Frame where
  method := f.method
  pc := f.node - 1
  locals := eraseVars f.vars

def State.erase (s : State) : Execution.State where
  memory := s.memory.erase
  stack := s.stack.map eraseFrame

/-- No frame is at an entry. -/
def State.Inside (s : State) : Prop := ∀ f ∈ s.stack, f.node ≠ 0

section Variables

variable {vars : Vars}

theorem bind_ref?_eq_none {d : Option Datum} (h : ∀ a, d ≠ some (.other a)) :
    d.bind Datum.ref? = none := by
  rcases d with _ | ⟨c | a⟩
  · rfl
  · rfl
  · exact absurd rfl (h a)

/-- A map of data loses its integers after a change as before. -/
theorem update_bind {α : Type} [DecidableEq α] (g : α → Option Datum) (x : α) (d : Option Datum) :
    (fun v => (Function.update g x d v).bind Datum.ref?) =
      Function.update (fun v => (g v).bind Datum.ref?) x (d.bind Datum.ref?) :=
  Function.comp_update (fun e : Option Datum => e.bind Datum.ref?) g x d

theorem eraseVars_assign (x : Option VarId) (d : Option Datum) :
    eraseVars (assign vars x d) = (eraseVars vars).put x (d.bind Datum.ref?) := by
  cases x with
  | none => rfl
  | some x => exact update_bind vars x d

theorem eraseVars_put (x : Option VarId) (d : Datum) :
    eraseVars (vars.put x (some d)) = (eraseVars vars).put x d.ref? := by
  cases x with
  | none => rfl
  | some x => exact update_bind vars x (some d)

theorem eraseVars_eq_of_reads {xs : List VarId} {ds : List Datum} (h : vars.Reads xs ds) :
    xs.map (eraseVars vars) = ds.map Datum.ref? := by
  have hbind := congrArg (List.map fun d : Option Datum => d.bind Datum.ref?) h
  rwa [List.map_map, List.map_map] at hbind

theorem eraseVars_head {y : Option VarId} {ds : List Datum} (h : vars.Reads y.toList ds) :
    ds.head?.bind Datum.ref? = y.bind (eraseVars vars) := by
  cases y with
  | none =>
    obtain rfl : ds = [] := List.map_eq_nil_iff.mp h.symm
    rfl
  | some v =>
    obtain ⟨d, rfl, hd⟩ := List.map_eq_singleton_iff.mp h.symm
    show d.ref? = (vars v).bind Datum.ref?
    rw [← hd]
    rfl

theorem eraseVars_bind (m : Method) (recv : Option Datum) (ds : List Datum) :
    eraseVars (bind m recv ds) = .enter m (recv.bind Datum.ref?) (ds.map Datum.ref?) := by
  have hfold : ∀ (params : List VarId) (ds : List Datum) (vars : Vars),
      eraseVars ((params.zip ds).foldl (fun l b => Function.update l b.1 (some b.2)) vars) =
        (params.zip (ds.map Datum.ref?)).foldl (fun l x => l.put (some x.1) x.2) (eraseVars vars) := by
    intro params
    induction params with
    | nil => exact fun _ _ => rfl
    | cons x params ih =>
      intro ds vars
      cases ds with
      | nil => rfl
      | cons d ds =>
        refine (ih ds _).trans (congrArg (List.foldl _ · _) ?_)
        exact update_bind vars x (some d)
  unfold Calls.bind Execution.Locals.enter
  rw [hfold, eraseVars_assign]
  rfl

end Variables

theorem ofNat_eq_iff {n : Nat} (hn : n < 2 ^ 64) (i : Int64) :
    Int64.ofNat n = i ↔ n = i.toBitVec.toNat := by
  rw [← Int64.toBitVec_inj, ← BitVec.toNat_inj, Int64.toBitVec_ofNat', BitVec.toNat_ofNat,
    Nat.mod_eq_of_lt hn]

theorem eraseElems_toNat (elems : Int64 → Option Datum) (i : Int64) :
    eraseElems elems i.toBitVec.toNat = (elems i).bind Datum.ref? := by
  rw [eraseElems, if_pos i.toBitVec.isLt, (ofNat_eq_iff i.toBitVec.isLt i).mpr rfl]

/-- Different indexes have different numbers. -/
theorem eraseElems_update (elems : Int64 → Option Datum) (i : Int64) (d : Option Datum) :
    eraseElems (Function.update elems i d) =
      Function.update (eraseElems elems) i.toBitVec.toNat (d.bind Datum.ref?) := by
  funext n
  by_cases hni : n = i.toBitVec.toNat
  · rw [hni, Function.update_self, eraseElems_toNat, Function.update_self]
  · rw [Function.update_of_ne hni]
    unfold eraseElems
    split
    · rename_i hn
      rw [Function.update_of_ne fun h => hni ((ofNat_eq_iff hn i).mp h)]
    · rfl

namespace Memory

variable {mem : Memory}

theorem erase_alloc (site : Site) (ty : Ty) :
    (mem.alloc site ty).erase = mem.erase.alloc site ty := by
  have hcell : Cell.erase { site, ty } = { site, ty } :=
    congrArg (Execution.Cell.mk site ty _) (funext fun _ => ite_self none)
  simp [alloc, erase, Execution.Memory.alloc, hcell]

theorem erase_setStatic (f : FieldId) (d : Datum) :
    (mem.setStatic f d).erase = mem.erase.setStatic f d.ref? :=
  congrArg (Execution.Memory.mk _) (update_bind mem.statics f (some d))

/-- An object changes without its integers as it changes with them. -/
theorem map_erase_modify {heap : List Cell} (a : Addr) {change : Cell → Cell}
    {change' : Execution.Cell → Execution.Cell} (h : ∀ cell, (change cell).erase = change' cell.erase) :
    (heap.modify a change).map Cell.erase = (heap.map Cell.erase).modify a change' := by
  refine List.ext_getElem? fun i => ?_
  simp only [List.getElem?_map, List.getElem?_modify]
  cases heap[i]? with
  | none => rfl
  | some cell =>
    simp only [Option.map_some]
    split
    · exact congrArg some (h cell)
    · rfl

theorem erase_setField (a : Addr) (f : FieldId) (d : Datum) :
    (mem.setField a f d).erase = mem.erase.setField a f d.ref? := by
  refine congrArg (Execution.Memory.mk · _) (map_erase_modify a fun cell => ?_)
  exact congrArg (Execution.Cell.mk _ _ · _) (update_bind cell.fields f (some d))

theorem erase_setElem (a : Addr) (i : Int64) (d : Datum) :
    (mem.setElem a i d).erase = mem.erase.setElem a i.toBitVec.toNat d.ref? := by
  refine congrArg (Execution.Memory.mk · _) (map_erase_modify a fun cell => ?_)
  exact congrArg (Execution.Cell.mk _ _ _) (eraseElems_update cell.elems i (some d))

theorem length_erase : mem.erase.heap.length = mem.heap.length := List.length_map _

theorem getElem?_erase {a : Addr} {cell : Cell} (h : mem.heap[a]? = some cell) :
    mem.erase.heap[a]? = some cell.erase := by
  rw [erase, List.getElem?_map, h]
  rfl

end Memory

/-- What a statement computes has no reference, unless it is copied. -/
theorem erase_plain {site : Site} {mem : Execution.Memory} {vars : Vars} {s : Stmt Nat} {ds : List Datum}
    {k : EdgeKind} {d : Option Datum} (hproduces : s.produces = false) (hstores : s.stores = false)
    (hacts : Acts s ds k d) (hobject : ∀ a, d = some (.other a) → ∃ x y, s = .copy x y)
    (hreads : vars.Reads s.uses ds) :
    Execution.Effect site mem (eraseVars vars) s mem (eraseVars (vars.put s.defined? d)) := by
  cases hacts with
  | nop => exact .nop
  | literal =>
    rw [eraseVars_put]
    exact .literal
  | copy =>
    rw [eraseVars_put, ← (List.cons.inj (eraseVars_eq_of_reads hreads)).1]
    exact .copy
  | @binary x y z op _ _ r _ =>
    rw [eraseVars_put]
    cases r with
    | int c => exact .binary
    | other a =>
      obtain ⟨_, _, h⟩ := hobject a rfl
      cases h
  | produce _ hs =>
    rw [hs] at hproduces
    cases hproduces
  | store hs =>
    rw [hs] at hstores
    cases hstores
  | branch => exact .branch
  | jump => exact .jump
  | switch => exact .switch

/-- A statement does to references what it does to data. -/
theorem Effect.erase {site : Site} {mem mem' : Memory} {vars : Vars} {s : Stmt Nat} {ds : List Datum}
    {k : EdgeKind} {d : Option Datum} (h : Effect site mem s ds k mem' d) (hreads : vars.Reads s.uses ds) :
    Execution.Effect site mem.erase (eraseVars vars) s mem'.erase
      (eraseVars (vars.put s.defined? d)) := by
  have hrefs := eraseVars_eq_of_reads hreads
  cases h with
  | plain hproduces hstores hacts hobject => exact erase_plain hproduces hstores hacts hobject hreads
  | unknown =>
    rw [eraseVars_put]
    exact .unknown
  | new =>
    rw [eraseVars_put, Memory.erase_alloc, Datum.ref?, ← Memory.length_erase]
    exact .new
  | @loadStatic x f d hd =>
    have hread : mem.erase.statics f = d.ref? := congrArg (·.bind Datum.ref?) hd
    rw [eraseVars_put, ← hread]
    exact .loadStatic
  | storeStatic =>
    rw [Memory.erase_setStatic, ← (List.cons.inj hrefs).1]
    exact .storeStatic
  | @loadField x b f a cell d hcell hd =>
    have hread : cell.erase.fields f = d.ref? := congrArg (·.bind Datum.ref?) hd
    rw [eraseVars_put, ← hread]
    exact .loadField (List.cons.inj hrefs).1 (Memory.getElem?_erase hcell)
  | storeField =>
    obtain ⟨hb, hrest⟩ := List.cons.inj hrefs
    rw [Memory.erase_setField, ← (List.cons.inj hrest).1]
    exact .storeField hb
  | @loadArray x b j a i cell d hcell hd =>
    have hread : cell.erase.elems i.toBitVec.toNat = d.ref? :=
      (eraseElems_toNat cell.elems i).trans (congrArg (·.bind Datum.ref?) hd)
    rw [eraseVars_put, ← hread]
    exact .loadArray _ (List.cons.inj hrefs).1 (Memory.getElem?_erase hcell)
  | storeArray =>
    obtain ⟨hb, hrest⟩ := List.cons.inj hrefs
    obtain ⟨-, hrest⟩ := List.cons.inj hrest
    rw [Memory.erase_setElem, ← (List.cons.inj hrest).1]
    exact .storeArray _ hb

section Frames

variable {p : Program} {f : Frame} {s : Site}

theorem eraseFrame_site (h : s.node = f.place) : (eraseFrame f).site = s := by
  obtain ⟨m, n, vars⟩ := f
  obtain ⟨rfl, rfl⟩ := Node.mk.inj h
  rfl

/-- A frame other than at an entry is at the statement of its node. -/
theorem node_site (h : f.node ≠ 0) : Site.node ⟨f.method, f.node - 1⟩ = f.place :=
  congrArg (Node.mk f.method) (Nat.sub_add_cancel (Nat.pos_of_ne_zero h))

/-- Only a node with a statement has edges. -/
theorem stmt?_of_mem_outEdges {m : Method} {n : Nat} {e : Edge} (hn : n ≠ 0) (he : e ∈ m.outEdges n) :
    m.stmt? (n - 1) = some (m.stmtAt n) := by
  cases n with
  | zero => exact absurd rfl hn
  | succ i =>
    cases hs : m.stmt? i with
    | none =>
      simp only [Method.outEdges, hs] at he
      cases he
    | some s =>
      show m.stmt? i = some ((m.stmt? i).getD .nop)
      rw [hs]
      rfl

theorem eraseFrame_resume (h : f.node ≠ 0) (d : Option Datum) :
    eraseFrame (f.resume p d) = (eraseFrame f).resume p (d.bind Datum.ref?) := by
  have hnode := node_site h
  have hresult : p.resultOf? (eraseFrame f).site = (p.stmtAt f.place).defined? := by
    rw [Program.resultOf?_eq, ← hnode]
    rfl
  unfold Execution.Frame.resume
  rw [hresult]
  simp only [eraseFrame, Frame.resume, eraseVars_assign]
  rw [Nat.sub_add_cancel (Nat.pos_of_ne_zero h), Nat.add_sub_cancel]

theorem eraseFrame_returnTo {fs : List Frame} (h : ∀ f ∈ fs, f.node ≠ 0) (d : Option Datum) :
    (returnTo p d fs).map eraseFrame = Execution.returnTo p (d.bind Datum.ref?) (fs.map eraseFrame) := by
  cases fs with
  | nil => rfl
  | cons f rest =>
    exact congrArg (· :: rest.map eraseFrame) (eraseFrame_resume (h f List.mem_cons_self) d)

theorem eraseFrame_callee (m : MethodId) (recv : Option Datum) {args : List VarId} {ds : List Datum}
    (h : f.vars.Reads args ds) :
    eraseFrame ⟨m, 1, Calls.bind (p.method m) recv ds⟩ =
      (eraseFrame f).callee p m (recv.bind Datum.ref?) args := by
  unfold Execution.Frame.callee
  rw [show args.map (eraseFrame f).locals = _ from eraseVars_eq_of_reads h, ← eraseVars_bind]
  rfl

end Frames

/-- One step of a run is one step of a run of references. -/
theorem Step.erase {p : Program} {s s' : State} {e : Option CallMade} (hs : s.Inside)
    (h : Step p s e s') : Execution.Step p s.erase e s'.erase := by
  cases h with
  | @start mem m vars hm hvars =>
    have hnone : eraseVars vars = fun _ => none := by
      funext v
      cases hv : vars v with
      | none => simp [eraseVars, hv]
      | some d =>
        obtain ⟨-, c, rfl⟩ := hvars v d hv
        simp [eraseVars, hv, Datum.ref?]
    simp only [State.erase, List.map_nil, List.map_cons, eraseFrame, hnone]
    exact .start hm
  | @go mem mem' f rest ds k d e hreads heffect hfind =>
    have hnode := hs f List.mem_cons_self
    have hmem := List.mem_of_find?_eq_some hfind
    refine .stmt (stmt?_of_mem_outEdges hnode hmem) (heffect.erase hreads) (List.mem_map.mpr ⟨e, ?_, rfl⟩)
    show e ∈ (p.method f.method).outEdges (f.node - 1 + 1)
    rwa [Nat.sub_add_cancel (Nat.pos_of_ne_zero hnode)]
  | @call mem f rest s call r m ds hnode hcall hbase hreads hr hm =>
    obtain ⟨x, hx⟩ := Program.stmt?_of_callAt? hcall
    obtain rfl := eraseFrame_site hnode
    simp only [State.erase, List.map_cons, eraseFrame_callee m none hreads]
    exact .call hx hbase hr hm
  | @callOn mem f rest s call b a cell m ds hnode hcall hbase hb hcell hreads hm =>
    obtain ⟨x, hx⟩ := Program.stmt?_of_callAt? hcall
    obtain rfl := eraseFrame_site hnode
    simp only [State.erase, List.map_cons, eraseFrame_callee m (some (.other a)) hreads]
    exact .callOn hx hbase (congrArg (·.bind Datum.ref?) hb) (Memory.getElem?_erase hcell) hm
  | @ret mem f rest y ds d hret hreads hreturns hobject =>
    obtain ⟨hnode, hrest⟩ := List.forall_mem_cons.mp hs
    obtain ⟨i, hi, hstmt⟩ := Method.exists_stmt?_of_stmtAt hret nofun
    have hsite : p.stmt? (eraseFrame f).site = some (.ret y) := by
      rw [← hstmt]
      exact congrArg _ (Nat.sub_eq_of_eq_add hi)
    have hd : d.bind Datum.ref? = y.bind (eraseFrame f).locals := by
      cases hreturns with
      | value => exact eraseVars_head hreads
      | unknown e hnone =>
        -- a method without variables to return does not return one here
        cases y with
        | none =>
          obtain rfl : ds = [] := List.map_eq_nil_iff.mp hreads.symm
          exact bind_ref?_eq_none fun a ha => nomatch (hobject a ha).trans ha
        | some v =>
          have hv : v ∈ (p.method f.method).returnVars := Method.mem_returnVars.mpr ⟨i, hstmt⟩
          rw [hnone] at hv
          cases hv
    simp only [State.erase, List.map_cons, eraseFrame_returnTo hrest, hd]
    exact .ret hsite
  | @fall mem f rest d hexit hreturns hobject =>
    obtain ⟨hnode, hrest⟩ := List.forall_mem_cons.mp hs
    have hsite : p.stmt? (eraseFrame f).site = none :=
      Method.stmt?_eq_none_of_exit_le (show _ ≤ f.node - 1 + 1 by
        rw [Nat.sub_add_cancel (Nat.pos_of_ne_zero hnode), hexit]
        rfl)
    have hd := bind_ref?_eq_none hobject
    simp only [State.erase, List.map_cons, eraseFrame_returnTo hrest, hd]
    exact .fall hsite

/-- A step leads to no entry. -/
theorem Step.inside {p : Program} {s s' : State} {e : Option CallMade} (hs : s.Inside)
    (h : Step p s e s') : s'.Inside := by
  have hreturn : ∀ {f : Frame} {rest : List Frame} {d : Option Datum},
      (∀ c ∈ f :: rest, c.node ≠ 0) → ∀ c ∈ returnTo p d rest, c.node ≠ 0 := by
    intro f rest d h
    cases rest with
    | nil => exact List.forall_mem_nil _
    | cons g rest =>
      have hrest := (List.forall_mem_cons.mp (List.forall_mem_cons.mp h).2).2
      exact List.forall_mem_cons.mpr ⟨Nat.succ_ne_zero _, hrest⟩
  cases h with
  | start => exact List.forall_mem_singleton.mpr Nat.one_ne_zero
  | go _ _ hfind =>
    have htarget := Method.target_ne_zero_of_mem_outEdges (List.mem_of_find?_eq_some hfind)
    exact List.forall_mem_cons.mpr ⟨htarget, (List.forall_mem_cons.mp hs).2⟩
  | call | callOn => exact List.forall_mem_cons.mpr ⟨Nat.one_ne_zero, hs⟩
  | ret | fall => exact hreturn hs

/-- A run is a run of references, and it is never at an entry. -/
theorem Run.erase {p : Program} {calls : List CallMade} {s : State} (h : Run p calls s) :
    Execution.Trace p calls s.erase ∧ s.Inside := by
  induction h with
  | nil => exact ⟨.nil, List.forall_mem_nil _⟩
  | step _ hstep ih => exact ⟨ih.1.step (hstep.erase ih.2), hstep.inside ih.2⟩

end Objects

end WholeProgram
