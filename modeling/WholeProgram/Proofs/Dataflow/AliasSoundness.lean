import WholeProgram.Proofs.Dataflow.Aliases
import WholeProgram.Proofs.Dataflow.InterproceduralSoundness
import WholeProgram.Proofs.PointsTo.Entries
import WholeProgram.Proofs.PointsTo.Soundness
import WholeProgram.Proofs.Program.Objects

/-!
# Constants through the heap hold in every run

Whatever memory holds was put there by a store, and the points-to sets find that store: its base may point
to the object that holds the datum. A load from the object goes through a base that may point to it as
well, so the two meet, and what is before the store is part of what the load finds.

* `IntAccesses` — integer loads find integer variables only, and indexes are integers;
* `Stored`, `MemoryStored` — what memory holds was stored by a store whose facts allow it;
* `MemoryStored.effect`, `covers_effect` — statements keep this, and what is after a statement covers what
  it does to the variables;
* `Sound.step`, `Run.sound` — so a step keeps stack and memory covered, and so does a run;
* `Aliases.analyze_covers_objects` — the result of the analysis says of an integer variable what it holds.
-/

namespace WholeProgram

namespace Stmt

variable {τ : Type}

/-- The variable that a store puts into memory. -/
def stored? : Stmt τ → Option VarId
  | storeField _ _ y | storeArray _ _ y => some y
  | _ => none

/-- The index of an array access. -/
def index? : Stmt τ → Option VarId
  | loadArray _ _ i | storeArray _ i _ => some i
  | _ => none

end Stmt

namespace Value

theorem const_le_of_allows {a : Value} {c : Int64} (h : a.Allows (.int c)) : const c ≤ a := by
  rcases h with rfl | ⟨c', rfl, hc⟩
  · exact le_nac _
  · rw [Body.Datum.int.inj hc]

end Value

namespace Objects

open Body Calls
open Execution (Addr CallMade)

/-- Where a load into an integer variable meets a store, an integer variable is stored, and arrays are
indexed by integer variables. -/
structure IntAccesses (p : Program) (g : Supergraph) (pts : VarId → IdSet) : Prop where
  stored : ∀ n ∈ g.nodes, (Aliases.intLoad? p (p.stmtAt n)).isSome = true → ∀ k ∈ g.nodes,
    ∀ a b, Aliases.loadPlace? (p.stmtAt n) = some a → Aliases.storePlace? (p.stmtAt k) = some b →
      Aliases.Meets pts a b → ∀ y, (p.stmtAt k).stored? = some y → p.holdsInt y = true
  index : ∀ n ∈ g.nodes, ∀ i, (p.stmtAt n).index? = some i → p.holdsInt i = true

/-- A place in memory: a static field, a field of an object, or an element of an array. Objects are known
by their allocation sites. -/
inductive Loc where
  | static (f : FieldId)
  | field (o : PointsTo.Obj) (f : FieldId)
  | elem (o : PointsTo.Obj) (i : Int64)

/-- A store of the supergraph may have put the datum there: its base may point to the object, and what is
before it allows the datum, and the index, where these are integers. -/
inductive Stored (p : Program) (g : Supergraph) (r : PointsTo.Result) (before : Node → Fact) :
    Loc → Datum → Prop
  | static {n : Node} {f : FieldId} {y : VarId} {d : Datum} : n ∈ g.nodes →
      p.stmtAt n = .storeField none f y → (p.holdsInt y = true → ((before n).get y).Allows d) →
      Stored p g r before (.static f) d
  | field {n : Node} {b : VarId} {f : FieldId} {y : VarId} {o : PointsTo.Obj} {d : Datum} :
      n ∈ g.nodes → p.stmtAt n = .storeField (some b) f y → r.MayPointTo b o →
      (p.holdsInt y = true → ((before n).get y).Allows d) → Stored p g r before (.field o f) d
  | elem {n : Node} {b j y : VarId} {o : PointsTo.Obj} {i : Int64} {d : Datum} : n ∈ g.nodes →
      p.stmtAt n = .storeArray b j y → r.MayPointTo b o →
      (p.holdsInt j = true → ((before n).get j).Allows (.int i)) →
      (p.holdsInt y = true → ((before n).get y).Allows d) → Stored p g r before (.elem o i) d

/-- The abstract object of an object. -/
def Cell.obj (cell : Cell) : PointsTo.Obj := .ofAlloc cell.site cell.ty

/-- All that an object holds was stored into it. -/
structure CellStored (p : Program) (g : Supergraph) (r : PointsTo.Result) (before : Node → Fact)
    (cell : Cell) : Prop where
  fields : ∀ f d, cell.fields f = some d → Stored p g r before (.field cell.obj f) d
  elems : ∀ i d, cell.elems i = some d → Stored p g r before (.elem cell.obj i) d

/-- All that memory holds was stored. -/
structure MemoryStored (p : Program) (g : Supergraph) (r : PointsTo.Result) (before : Node → Fact)
    (mem : Memory) : Prop where
  cells : ∀ (a : Addr) cell, mem.heap[a]? = some cell → CellStored p g r before cell
  statics : ∀ f d, mem.statics f = some d → Stored p g r before (.static f) d

/-- The points-to sets have the objects that the variables hold. -/
def PointsInto (r : PointsTo.Result) (mem : Memory) (vars : Vars) : Prop :=
  ∀ b a cell, vars b = some (.other a) → mem.heap[a]? = some cell → r.MayPointTo b cell.obj

variable {p : Program} {g : Supergraph} {r : PointsTo.Result} {before : Node → Fact} {mem mem' : Memory}

/-- Whether all stored variables and all indexes hold integers can be checked method by method. -/
theorem intAccesses_of_methods {pts : VarId → IdSet} (h : ∀ m ∈ p.methods.toList,
    m.body.toList.all fun i => i.stmt.stored?.all p.holdsInt && i.stmt.index?.all p.holdsInt) :
    IntAccesses p g pts := by
  have hstmt : ∀ n, ((p.stmtAt n).stored?.all p.holdsInt && (p.stmtAt n).index?.all p.holdsInt) = true := by
    intro n
    by_cases hnop : p.stmtAt n = .nop
    · rw [hnop]
      rfl
    · obtain ⟨m, hm, i, hi, hin⟩ := Program.exists_instr_of_stmtAt hnop
      exact hin ▸ List.all_eq_true.mp (h m hm) i hi
  refine ⟨fun _ _ _ k _ _ _ _ _ _ y hy => ?_, fun n _ i hi => ?_⟩
  · have hall := (Bool.and_eq_true_iff.mp (hstmt k)).1
    rwa [hy] at hall
  · have hall := (Bool.and_eq_true_iff.mp (hstmt n)).2
    rwa [hi] at hall

/-! ## Stores -/

/-- A map of data changes at one place, to a datum that was stored there. -/
theorem stored_update {α : Type} [DecidableEq α] {h : α → Option Datum} {loc : α → Loc} {x : α} {d : Datum}
    (hold : ∀ y e, h y = some e → Stored p g r before (loc y) e) (hd : Stored p g r before (loc x) d)
    (y : α) (e : Datum) (he : Function.update h x (some d) y = some e) :
    Stored p g r before (loc y) e := by
  by_cases hyx : y = x
  · subst hyx
    rw [Function.update_self] at he
    exact Option.some.inj he ▸ hd
  · rw [Function.update_of_ne hyx] at he
    exact hold y e he

namespace MemoryStored

theorem alloc (h : MemoryStored p g r before mem) (site : Site) (ty : Ty) :
    MemoryStored p g r before (mem.alloc site ty) where
  cells a cell hcell := by
    rcases List.mem_append.mp (List.mem_of_getElem? hcell) with hold | hnew
    · obtain ⟨b, hb⟩ := List.mem_iff_getElem?.mp hold
      exact h.cells b cell hb
    · obtain rfl := List.mem_singleton.mp hnew
      exact ⟨nofun, nofun⟩
  statics := h.statics

/-- One object changes, and still all that it holds was stored into it. -/
theorem modify (h : MemoryStored p g r before mem) {a : Addr} {change : Cell → Cell}
    (hchange : ∀ cell, mem.heap[a]? = some cell → CellStored p g r before cell →
      CellStored p g r before (change cell)) :
    MemoryStored p g r before { mem with heap := mem.heap.modify a change } where
  cells b cell hcell := by
    rw [List.getElem?_modify] at hcell
    obtain ⟨old, hold, rfl⟩ := Option.map_eq_some_iff.mp hcell
    split
    · rename_i hab
      subst hab
      exact hchange old hold (h.cells a old hold)
    · exact h.cells b old hold
  statics := h.statics

/-- A statement that may only store what its variables hold keeps memory. -/
theorem effect (h : MemoryStored p g r before mem) {n : Node} (hn : n ∈ g.nodes) {vars : Vars}
    (hvars : Constants.Covers p (before n) vars) (hpoints : PointsInto r mem vars) {site : Site}
    {ds : List Datum} {k : EdgeKind} {d : Option Datum} (hreads : vars.Reads (p.stmtAt n).uses ds)
    (heffect : Effect site mem (p.stmtAt n) ds k mem' d) : MemoryStored p g r before mem' := by
  generalize hs : p.stmtAt n = s at hreads heffect
  cases heffect with
  | plain | unknown | loadStatic | loadField | loadArray => exact h
  | new => exact h.alloc _ _
  | @storeStatic f y d =>
    have hy : vars y = some d := Vars.reads_one.mp hreads
    refine ⟨h.cells, stored_update h.statics (.static hn hs fun hint => hvars y d hy hint)⟩
  | @storeField b y f a d =>
    obtain ⟨hb, hy⟩ := Vars.reads_two.mp hreads
    refine h.modify fun cell hcell hold => ⟨stored_update hold.fields ?_, hold.elems⟩
    exact .field hn hs (hpoints b a cell hb hcell) fun hint => hvars y d hy hint
  | @storeArray b j y a i d =>
    obtain ⟨hb, hrest⟩ := List.cons.inj hreads
    obtain ⟨hj, hy⟩ := Vars.reads_two.mp hrest
    refine h.modify fun cell hcell hold => ⟨hold.fields, stored_update hold.elems ?_⟩
    exact .elem hn hs (hpoints b a cell hb hcell) (fun hint => hvars j _ hj hint) fun hint =>
      hvars y d hy hint

end MemoryStored

/-! ## Loads -/

variable {K : Set PointsTo.Obj} {a : Assignment Fact}

/-- A load into an integer variable finds a value that allows the datum which it gets. -/
theorem exists_finds (hok : r.core.Ok K) (haccess : IntAccesses p g r.pointsTo)
    (hmem : MemoryStored p g r before mem) {n : Node} (hn : n ∈ g.nodes) {vars : Vars}
    (hvars : Constants.Covers p (before n) vars) (hpoints : PointsInto r mem vars) {x : VarId}
    (hx : Aliases.intLoad? p (p.stmtAt n) = some x) {site : Site} {ds : List Datum} {k : EdgeKind}
    {d : Datum} (hreads : vars.Reads (p.stmtAt n).uses ds)
    (heffect : Effect site mem (p.stmtAt n) ds k mem' (some d)) :
    ∃ v, Aliases.Finds p g r.pointsTo before (before n) (p.stmtAt n) v ∧ v.Allows d := by
  have hstored := haccess.stored n hn (by rw [hx]; rfl)
  have hindex := haccess.index n hn
  generalize p.stmtAt n = s at hx hreads heffect hstored hindex ⊢
  cases heffect with
  | plain hproduces =>
    cases s with
    | loadField | loadArray => cases hproduces
    | _ => cases hx
  | unknown | new => cases hx
  | @loadStatic x f d hd =>
    cases hmem.statics f d hd with
    | @static m _ y _ hm hstore hallows =>
      have hy := hstored m hm _ _ rfl (by rw [hstore]; rfl) (.static f) y (by rw [hstore]; rfl)
      exact ⟨_, .static hm hstore, hallows hy⟩
  | @loadField x b f a cell d hcell hd =>
    have hb := hpoints b a cell (Vars.reads_one.mp hreads) hcell
    cases (hmem.cells a cell hcell).fields f d hd with
    | @field m c _ y _ _ hm hstore hc hallows =>
      obtain ⟨o, hob, hoc⟩ := PointsTo.Result.exists_common hok hb hc
      have hy := hstored m hm _ _ rfl (by rw [hstore]; rfl) (.field hob hoc) y (by rw [hstore]; rfl)
      exact ⟨_, .field hm hstore hob hoc, hallows hy⟩
  | @loadArray x b i a k cell d hcell hd =>
    obtain ⟨hbase, hi⟩ := Vars.reads_two.mp hreads
    have hb := hpoints b a cell hbase hcell
    cases (hmem.cells a cell hcell).elems k d hd with
    | @elem m c j y _ _ _ hm hstore hc hj hallows =>
      obtain ⟨o, hob, hoc⟩ := PointsTo.Result.exists_common hok hb hc
      have hy := hstored m hm _ _ rfl (by rw [hstore]; rfl) (.array hob hoc) y (by rw [hstore]; rfl)
      -- both accesses are at the index of the element
      have halias : Aliases.indexMayAlias ((before n).get i) ((before m).get j) = true := by
        refine Aliases.indexMayAlias_iff.mpr ⟨k, ?_, ?_⟩
        · exact Value.const_le_of_allows (hvars i _ hi (hindex i rfl))
        · exact Value.const_le_of_allows (hj (haccess.index m hm j (by rw [hstore]; rfl)))
      exact ⟨_, .array hm hstore hob hoc halias, hallows hy⟩

/-- What is after a statement covers what it does to the variables. -/
theorem covers_effect (hok : r.core.Ok K) (h : Aliases.Equations p g r.pointsTo a)
    (hint : ∀ m, (p.method m).IntOperands p) (haccess : IntAccesses p g r.pointsTo)
    (hmem : MemoryStored p g r (g.before a) mem) {f : Frame}
    (hf : Covered p g (g.before a) f) (hpoints : PointsInto r mem f.vars)
    {site : Site} {ds : List Datum} {k : EdgeKind} {d : Option Datum}
    (hreads : f.vars.Reads (p.stmtAt f.place).uses ds)
    (heffect : Effect site mem (p.stmtAt f.place) ds k mem' d) :
    Constants.Covers p (g.after a f.place) (f.vars.put (p.stmtAt f.place).defined? d) := by
  cases hload : Aliases.intLoad? p (p.stmtAt f.place) with
  | none =>
    rw [Supergraph.after, h.after _ hf.mem hf.isBoundary hload]
    exact hf.transfer hint heffect.call?_eq_none hreads heffect.acts
  | some x =>
    obtain ⟨hrest, hlub⟩ := h.load _ hf.mem x hload
    obtain ⟨hdef, -⟩ := Aliases.intLoad?_spec hload
    obtain ⟨d, rfl⟩ : ∃ e, d = some e := by
      refine Option.ne_none_iff_exists'.mp fun hnone => ?_
      rw [hnone] at heffect
      rw [heffect.acts.defined?_eq_none] at hdef
      cases hdef
    obtain ⟨v, hfinds, hallows⟩ :=
      exists_finds hok haccess hmem hf.mem hf.covers hpoints hload hreads heffect
    rw [hdef]
    intro w e hw hint
    by_cases hwx : w = x
    · subst hwx
      rw [Vars.put_self] at hw
      obtain rfl := Option.some.inj hw
      exact hallows.mono (hlub.1 hfinds)
    · rw [Vars.put_of_ne fun hx => hwx (Option.some.inj hx).symm] at hw
      rw [hrest w hwx]
      exact hf.covers w e hw hint

/-! ## Runs and the pointer analysis -/

section Runs

variable {opts : PointsTo.Options} {calls : List CallMade} {s s' : State} {e : Option CallMade}

/-- The result of the pointer analysis accounts for what a run does to references. -/
theorem Run.accounts (hr : (PointsTo.analyze p opts).start.1 = .ok r) (h : Run p calls s) :
    r.Accounts calls s.erase := by
  obtain ⟨⟨objs, hs⟩, hcalls⟩ := PointsTo.trace_covered (PointsTo.analyze_closed hr) h.erase.1
  exact hs.accounts (PointsTo.analyze_core_ok hr) hcalls

theorem Run.pointsInto (hr : (PointsTo.analyze p opts).start.1 = .ok r) (h : Run p calls s) {f : Frame}
    (hf : f ∈ s.stack) : PointsInto r s.memory f.vars := by
  intro b a cell hb hcell
  have hlocals : (eraseFrame f).locals b = some a := congrArg (·.bind Datum.ref?) hb
  obtain ⟨cell', hcell', hmay⟩ :=
    (h.accounts hr).mayPointTo _ (List.mem_map.mpr ⟨f, hf, rfl⟩) b a hlocals
  obtain rfl := Option.some.inj ((Memory.getElem?_erase hcell).symm.trans hcell')
  exact hmay

theorem Run.reachable (hr : (PointsTo.analyze p opts).start.1 = .ok r) (h : Run p calls s) {f : Frame}
    (hf : f ∈ s.stack) : f.method ∈ r.callGraph.reachable :=
  (h.accounts hr).reachable _ (List.mem_map.mpr ⟨f, hf, rfl⟩)

/-- A call that a run makes goes to a callee that the supergraph has for it. -/
theorem Run.mem_calleesOf (hr : (PointsTo.analyze p opts).start.1 = .ok r) {f c : Frame}
    {rest : List Frame} {site : Site} {call : Call}
    (h : Run p calls ⟨mem, f :: c :: rest⟩) (hmade : (site, f.method) ∈ calls)
    (hsite : site.node = c.place) (hcall : p.callAt? site = some call) :
    f.method ∈ (Supergraph.ofCallGraph p r.callGraph).calleesOf site := by
  have hc : c.method = site.method := (congrArg Node.method hsite).symm
  refine (Supergraph.mem_calleesOf r.callGraph_built.consistent).mpr ⟨?_, by rw [hcall]; rfl, ?_, ?_⟩
  · exact hc ▸ h.reachable hr (List.mem_cons_of_mem _ List.mem_cons_self)
  · exact (h.accounts hr).edges _ hmade
  · exact h.reachable hr List.mem_cons_self

/-- The frames are covered, and all that memory holds was stored. -/
structure Sound (p : Program) (g : Supergraph) (r : PointsTo.Result) (before : Node → Fact) (s : State) :
    Prop where
  stack : Stack p g before s.stack
  memory : MemoryStored p g r before s.memory

/-- Solutions of the equations conduct runs. -/
theorem conducts_of_equations (hp : p.WellFormed) {cg : MethodCallGraph} (hcg : cg.Built)
    {pts : VarId → IdSet} (h : Aliases.Equations p (.ofCallGraph p cg) pts a) :
    Conducts p (.ofCallGraph p cg) ((Supergraph.ofCallGraph p cg).before a)
      ((Supergraph.ofCallGraph p cg).after a) := by
  refine conducts_of_flows hp hcg h.toFlows fun n hn hb hidle => ?_
  have hload : Aliases.intLoad? p (p.stmtAt n) = none := by
    cases hload : Aliases.intLoad? p (p.stmtAt n) with
    | none => rfl
    | some x =>
      rcases hidle with hdef | hcall
      · rw [(Aliases.intLoad?_spec hload).1] at hdef
        cases hdef
      · obtain ⟨call, hcall⟩ := Option.isSome_iff_exists.mp hcall
        obtain ⟨y, hinvoke⟩ := Stmt.eq_invoke_of_call? hcall
        rw [hinvoke] at hload
        cases hload
  exact (h.after n hn hb hload).trans (Interprocedural.transfer_idle hidle _)

variable (hp : p.WellFormed) (hr : (PointsTo.analyze p opts).start.1 = .ok r)
  (h : Aliases.Equations p (.ofCallGraph p r.callGraph) r.pointsTo a)
  (hint : ∀ m, (p.method m).IntOperands p) (hflows : IntFlows p (.ofCallGraph p r.callGraph))
  (haccess : IntAccesses p (.ofCallGraph p r.callGraph) r.pointsTo)

include hp hr h hint hflows haccess

/-- One step of a run keeps stack and memory covered. -/
theorem Sound.step
    (hs : Sound p (.ofCallGraph p r.callGraph) r ((Supergraph.ofCallGraph p r.callGraph).before a) s)
    (hrun : Run p calls s) (hstep : Step p s e s') :
    Sound p (.ofCallGraph p r.callGraph) r ((Supergraph.ofCallGraph p r.callGraph).before a) s' := by
  have hc := conducts_of_equations hp r.callGraph_built h
  have hok := PointsTo.analyze_core_ok hr
  have hrun' := hrun.step hstep
  cases hstep with
  | start hm hvars =>
    have hreach := hrun'.reachable hr List.mem_cons_self
    obtain ⟨hmem, hle⟩ := hc.start _ (Array.mem_toList_iff.mpr (PointsTo.Result.mem_entries hr hm))
      (Array.mem_toList_iff.mpr hreach)
    refine ⟨.entry ⟨Nat.one_ne_zero, hmem, (Constants.covers_entryFact fun v hv => ?_).mono hle⟩, hs.memory⟩
    obtain ⟨d, hd⟩ := Option.isSome_iff_exists.mp hv
    exact List.mem_append_right _ (Array.mem_toList_iff.mpr (hvars v d hd).1)
  | go hreads heffect hfind =>
    have hf := hs.stack.top
    have hpoints := hrun.pointsInto hr List.mem_cons_self
    refine ⟨?_, hs.memory.effect hf.mem hf.covers hpoints hreads heffect⟩
    exact hs.stack.go hc heffect.call?_eq_none (List.mem_of_find?_eq_some hfind)
      (covers_effect hok h hint haccess hs.memory hf hpoints hreads heffect)
  | call hnode hcall _ hreads =>
    have hm := hrun'.mem_calleesOf hr (List.mem_append_right _ List.mem_cons_self) hnode hcall
    exact ⟨hs.stack.push hp hflows hc hnode hcall hm hreads _, hs.memory⟩
  | callOn hnode hcall _ _ _ hreads =>
    have hm := hrun'.mem_calleesOf hr (List.mem_append_right _ List.mem_cons_self) hnode hcall
    exact ⟨hs.stack.push hp hflows hc hnode hcall hm hreads _, hs.memory⟩
  | ret hret hreads hreturns =>
    refine ⟨hs.stack.pop hflows hc hreturns fun e he => ?_, hs.memory⟩
    obtain ⟨y, rfl, hy⟩ := hreads.of_head? he
    exact ⟨y, hret, hy⟩
  | fall _ hreturns => exact ⟨hs.stack.pop hflows hc hreturns nofun, hs.memory⟩

/-- Along a run, stack and memory are covered. -/
theorem Run.sound (hrun : Run p calls s) :
    Sound p (.ofCallGraph p r.callGraph) r ((Supergraph.ofCallGraph p r.callGraph).before a) s := by
  induction hrun with
  | nil => exact ⟨.nil, nofun, nofun⟩
  | step hrun hstep ih => exact ih.step hp hr h hint hflows haccess hrun hstep

end Runs

end Objects

namespace Boxed

open Body Objects

/-- The run of `main`, up to where it has taken the content out of the box. -/
theorem objects_run : ∃ calls mem vars rest, Objects.Run program calls ⟨mem, ⟨0, 6, vars⟩ :: rest⟩ ∧
    vars 3 = some (.int 7) := by
  have h : Objects.Run program _ ⟨{}, [⟨0, 1, fun _ => none⟩]⟩ := .step .nil (.start (by decide) nofun)
  have h := h.step (.go (show Vars.Reads _ _ [] from rfl) (.plain rfl rfl .literal nofun)
    (show _ = some ⟨.fallThrough, 1, 2⟩ from rfl))
  have h := h.step (.go (show Vars.Reads _ _ [] from rfl) .new (show _ = some ⟨.fallThrough, 2, 3⟩ from rfl))
  have h := h.step (.go (show Vars.Reads _ _ [.other 0, .int 7] from rfl) .storeField
    (show _ = some ⟨.fallThrough, 3, 4⟩ from rfl))
  have h := h.step (.call (s := ⟨0, 3⟩) (r := ⟨[1], none⟩) rfl rfl rfl
    (show Vars.Reads _ _ [.int 7] from rfl) rfl List.mem_cons_self)
  have h := h.step (.go (show Vars.Reads _ _ [.int 7, .int 7] from rfl)
    (.plain rfl rfl (.binary (.ints rfl)) nofun) (show _ = some ⟨.fallThrough, 1, 2⟩ from rfl))
  have h := h.step (.ret rfl (show Vars.Reads _ _ [.int 14] from rfl) (.value (by decide)) nofun)
  have h := h.step (.go (show Vars.Reads _ _ [.other 0] from rfl) (.loadField rfl rfl)
    (show _ = some ⟨.fallThrough, 5, 6⟩ from rfl))
  exact ⟨_, _, _, _, h, Vars.put_self _⟩

theorem intAccesses {g : Supergraph} {pts : VarId → IdSet} : IntAccesses program g pts :=
  intAccesses_of_methods (by decide)

end Boxed

namespace Aliases

open Body Calls Objects

variable {p : Program} {opts : PointsTo.Options} {r : PointsTo.Result}

/-- Over the supergraph of the call graph that the pointer analysis finds: whenever the running frame is
about to execute a statement, an integer variable that holds `x` is not a constant before that statement,
or the constant `x`. Without a limit there is a result, unless an operator does not exist. -/
theorem analyze_covers_objects (hp : p.WellFormed) (hr : (PointsTo.analyze p opts).start.1 = .ok r)
    (hint : ∀ m, (p.method m).IntOperands p) (hflows : IntFlows p (.ofCallGraph p r.callGraph))
    (haccess : IntAccesses p (.ofCallGraph p r.callGraph) r.pointsTo) :
    (∀ limit c, (analyze p (.ofCallGraph p r.callGraph) r limit).start.1 = .ok c →
      ∀ calls mem f rest, Objects.Run p calls ⟨mem, f :: rest⟩ →
        ∀ v x, p.holdsInt v = true → f.vars v = some (.int x) →
          (c.inFact ((Supergraph.ofCallGraph p r.callGraph).number f.place)).get v = .nac ∨
          (c.inFact ((Supergraph.ofCallGraph p r.callGraph).number f.place)).get v = .const x) ∧
    (Interprocedural.Declared p (.ofCallGraph p r.callGraph) → ∀ limit ≤ 0,
      ∃ c, (analyze p (.ofCallGraph p r.callGraph) r limit).start.1 = .ok c) := by
  have hg := Supergraph.indexed_ofCallGraph hp r.callGraph_built
  constructor
  · intro limit c hc calls mem f rest hrun v x hv hx
    have hequations := (leastSolution_of_ok hp hg hc).solves
    have hsound := hrun.sound hp hr hequations hint hflows haccess
    rcases hsound.stack.top.covers v _ hx hv with hnac | ⟨y, hy, hxy⟩
    · exact Or.inl hnac
    · rw [Datum.int.inj hxy]
      exact Or.inr hy
  · intro hops limit hlimit
    refine (analyze_ends hp hg hlimit).solved ?_ hops
    obtain ⟨m, hm⟩ := List.exists_mem_of_ne_nil _ (PointsTo.entries_ne_nil_of_ok hr)
    exact List.ne_nil_of_mem (Array.mem_toList_iff.mpr (PointsTo.Result.mem_entries hr hm))

/-- After the content was taken out of the box, it is not a constant or it is seven. -/
theorem analyze_covers_objects_boxed :
    ∃ r, (PointsTo.analyze Boxed.program {}).start.1 = .ok r ∧
      ∃ c, (analyze Boxed.program (.ofCallGraph Boxed.program r.callGraph) r 0).start.1 = .ok c ∧
        let n := (Supergraph.ofCallGraph Boxed.program r.callGraph).number ⟨0, 6⟩
        (c.inFact n).get 3 = .nac ∨ (c.inFact n).get 3 = .const 7 := by
  obtain ⟨r, hr⟩ := Boxed.exists_pointers
  obtain ⟨hsound, hexists⟩ := analyze_covers_objects Boxed.wellFormed hr Boxed.intOperands Boxed.intFlows
    Boxed.intAccesses
  obtain ⟨c, hc⟩ := hexists (Interprocedural.declared_of_methods (by decide)) 0 le_rfl
  obtain ⟨calls, mem, vars, rest, hrun, hfound⟩ := Boxed.objects_run
  exact ⟨r, hr, c, hc, hsound 0 c hc calls mem _ rest hrun 3 7 (by decide) hfound⟩

end Aliases

end WholeProgram
