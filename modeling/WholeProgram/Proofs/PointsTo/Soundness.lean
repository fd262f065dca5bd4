import WholeProgram.Proofs.PointsTo.Exact
import WholeProgram.Proofs.PointsTo.Outcome
import WholeProgram.Proofs.Program.Execution

/-!
# The analysis covers every run

Whatever a run does is among the facts that are closed under the rules. Every object of the heap
stands for an abstract object with a heap context, every frame for a method in a context
(`MemoryCovered`, `StackCovered`), and references are only where the facts have them. A step keeps
this (`StateCovered.step`), so it holds along every run (`trace_covered`), and a result names every
object that a variable ever holds and every call edge that is ever taken (`analyze_sound`).
-/

namespace WholeProgram.PointsTo

open Execution

variable {p : Program} {opts : Options} {X : Set Fact} {objs objs' : List HeapObj} {q : Pointer}
  {c : Context}

/-- A value is at most what the pointer has by the facts. The abstract objects are those of the
heap, by address. -/
def Covers (X : Set Fact) (objs : List HeapObj) (q : Pointer) (v : Option Addr) : Prop :=
  ∀ a, v = some a → ∃ o, objs[a]? = some o ∧ .holds q o ∈ X

theorem covers_none : Covers X objs q none := by
  intro a ha
  cases ha

/-- Older abstract objects stay the same when the heap grows. -/
theorem Covers.mono {v : Option Addr} (h : Covers X objs q v) (hle : objs <+: objs') :
    Covers X objs' q v := by
  intro a ha
  obtain ⟨o, ho, hq⟩ := h a ha
  obtain ⟨new, rfl⟩ := hle
  have hlt : a < objs.length := (List.getElem?_eq_some_iff.mp ho).1
  exact ⟨o, (List.getElem?_append_left hlt).trans ho, hq⟩

/-- What flows from one pointer to another is covered there too. -/
theorem Covers.flow (hX : Closed p opts false X) {q' : Pointer} {v : Option Addr}
    (hflow : .flow q q' ∈ X) (h : Covers X objs q v) : Covers X objs q' v := by
  intro a ha
  obtain ⟨o, ho, hq⟩ := h a ha
  exact ⟨o, ho, hX (.flow hflow hq)⟩

/-- A map of values stays covered when it changes at one place. -/
theorem covers_update {g : Nat → Option Addr} {place : Nat → Pointer} {i : Nat} {v : Option Addr}
    (hg : ∀ j, Covers X objs (place j) (g j)) (hv : Covers X objs (place i) v) (j : Nat) :
    Covers X objs (place j) (Function.update g i v j) := by
  by_cases h : j = i
  · subst h
    rw [Function.update_self]
    exact hv
  · rw [Function.update_of_ne h]
    exact hg j

/-! ## Memory -/

/-- An object of the heap stands for an abstract object of its allocation site, and so do those it
refers to. -/
structure CellCovered (X : Set Fact) (objs : List HeapObj) (o : HeapObj) (cell : Cell) : Prop where
  obj : o.obj = .ofAlloc cell.site cell.ty
  fields : ∀ f, Covers X objs (.field o f) (cell.fields f)
  elems : ∀ n, Covers X objs (.array o) (cell.elems n)

structure MemoryCovered (X : Set Fact) (objs : List HeapObj) (mem : Memory) : Prop where
  length : objs.length = mem.heap.length
  cells : ∀ {a : Addr} {o : HeapObj} {cell : Cell}, objs[a]? = some o → mem.heap[a]? = some cell →
    CellCovered X objs o cell
  statics : ∀ f, Covers X objs (.static f) (mem.statics f)

def LocalsCovered (X : Set Fact) (objs : List HeapObj) (c : Context) (l : Locals) : Prop :=
  ∀ x, Covers X objs (.var c x) (l x)

theorem CellCovered.mono {o : HeapObj} {cell : Cell} (h : CellCovered X objs o cell)
    (hle : objs <+: objs') :
    CellCovered X objs' o cell :=
  ⟨h.obj, fun f => (h.fields f).mono hle, fun n => (h.elems n).mono hle⟩

theorem LocalsCovered.mono {l : Locals} (h : LocalsCovered X objs c l) (hle : objs <+: objs') :
    LocalsCovered X objs' c l :=
  fun x => (h x).mono hle

theorem LocalsCovered.put_some {l : Locals} {x : VarId} {v : Option Addr}
    (h : LocalsCovered X objs c l) (hv : Covers X objs (.var c x) v) :
    LocalsCovered X objs c (l.put (some x) v) :=
  covers_update h hv

theorem LocalsCovered.put {l : Locals} {x : Option VarId} {v : Option Addr}
    (h : LocalsCovered X objs c l) (hv : ∀ y, x = some y → Covers X objs (.var c y) v) :
    LocalsCovered X objs c (l.put x v) := by
  cases x with
  | none => exact h
  | some x => exact h.put_some (hv x rfl)

/-- A new object stands for an abstract object of its site, in whatever heap context. -/
theorem MemoryCovered.alloc {mem : Memory} (h : MemoryCovered X objs mem) (site : Site) (ty : Ty)
    (hc : Context) :
    MemoryCovered X (objs ++ [⟨hc, .ofAlloc site ty⟩]) (mem.alloc site ty) where
  length := by
    simp only [Memory.alloc, List.length_append, h.length, List.length_singleton]
  cells := by
    intro a o cell ho hcell
    rw [Memory.alloc] at hcell
    by_cases ha : a < objs.length
    · rw [List.getElem?_append_left ha] at ho
      rw [List.getElem?_append_left (h.length ▸ ha)] at hcell
      exact (h.cells ho hcell).mono (List.prefix_append _ _)
    · -- the last place
      have hlast : a = objs.length := by
        have hlt := (List.getElem?_eq_some_iff.mp ho).1
        rw [List.length_append, List.length_singleton] at hlt
        exact Nat.le_antisymm (Nat.le_of_lt_succ hlt) (Nat.le_of_not_lt ha)
      subst hlast
      rw [List.getElem?_concat_length] at ho
      rw [h.length, List.getElem?_concat_length] at hcell
      cases ho
      cases hcell
      exact ⟨rfl, fun _ => covers_none, fun _ => covers_none⟩
  statics := fun f => (h.statics f).mono (List.prefix_append _ _)

/-- One object changes, and still refers only to what the facts have. -/
theorem MemoryCovered.modify {mem : Memory} {a : Addr} {o : HeapObj} {change : Cell → Cell}
    (h : MemoryCovered X objs mem) (ho : objs[a]? = some o)
    (hchange : ∀ {cell : Cell}, CellCovered X objs o cell → CellCovered X objs o (change cell)) :
    MemoryCovered X objs { mem with heap := mem.heap.modify a change } where
  length := by
    rw [List.length_modify]
    exact h.length
  cells := by
    intro b o' cell hb hcell
    rw [List.getElem?_modify] at hcell
    obtain ⟨old, hold, rfl⟩ := Option.map_eq_some_iff.mp hcell
    by_cases hab : a = b
    · subst hab
      cases ho.symm.trans hb
      rw [if_pos rfl]
      exact hchange (h.cells ho hold)
    · rw [if_neg hab]
      exact h.cells hb hold
  statics := h.statics

/-- A statement of a reachable method keeps memory and variables covered; the heap may get a new
object. -/
theorem effect_covered (hX : Closed p opts false X) {site : Site} {s : Stmt Nat}
    {mem mem' : Memory} {l l' : Locals} (hr : .reach ⟨c, site.method⟩ ∈ X)
    (hs : p.stmt? site = some s) (hmem : MemoryCovered X objs mem) (hl : LocalsCovered X objs c l)
    (he : Effect site mem l s mem' l') :
    ∃ objs', objs <+: objs' ∧ MemoryCovered X objs' mem' ∧ LocalsCovered X objs' c l' := by
  cases he with
  | nop | branch | jump | switch => exact ⟨objs, List.prefix_rfl, hmem, hl⟩
  | literal | binary | unknown => exact ⟨objs, List.prefix_rfl, hmem, hl.put fun _ _ => covers_none⟩
  | @copy x y =>
    refine ⟨objs, List.prefix_rfl, hmem, hl.put_some ?_⟩
    exact (hl y).flow hX (hX (.stmt hr (.copy hs)))
  | @new x t =>
    have hle := List.prefix_append objs [⟨opts.selector.heapContext c, .ofAlloc site t⟩]
    refine ⟨_, hle, hmem.alloc site t _, (hl.mono hle).put_some ?_⟩
    -- the address of the new object is the length of the heap before
    rintro a ⟨⟩
    refine ⟨_, ?_, hX (.stmt hr (.new hs))⟩
    rw [← hmem.length, List.getElem?_concat_length]
  | @loadStatic x f =>
    refine ⟨objs, List.prefix_rfl, hmem, hl.put_some ?_⟩
    exact (hmem.statics f).flow hX (hX (.stmt hr (.loadStatic hs)))
  | @storeStatic f y =>
    have hy : Covers X objs (.static f) (l y) := (hl y).flow hX (hX (.stmt hr (.storeStatic hs)))
    exact ⟨objs, List.prefix_rfl, ⟨hmem.length, hmem.cells, covers_update hmem.statics hy⟩, hl⟩
  | @loadField x b f a cell hb hcell =>
    obtain ⟨o, ho, hbase⟩ := hl b a hb
    refine ⟨objs, List.prefix_rfl, hmem, hl.put_some ?_⟩
    exact ((hmem.cells ho hcell).fields f).flow hX (hX (.through hbase (.loadField hs) (by simp)))
  | @storeField b y f a hb =>
    obtain ⟨o, ho, hbase⟩ := hl b a hb
    have hy : Covers X objs (.field o f) (l y) :=
      (hl y).flow hX (hX (.through hbase (.storeField hs) (by simp)))
    refine ⟨objs, List.prefix_rfl, hmem.modify ho fun h => ?_, hl⟩
    exact ⟨h.obj, covers_update h.fields hy, h.elems⟩
  | @loadArray x b i a cell n hb hcell =>
    obtain ⟨o, ho, hbase⟩ := hl b a hb
    refine ⟨objs, List.prefix_rfl, hmem, hl.put_some ?_⟩
    exact ((hmem.cells ho hcell).elems n).flow hX (hX (.through hbase (.loadArray hs) (by simp)))
  | @storeArray b i y a n hb =>
    obtain ⟨o, ho, hbase⟩ := hl b a hb
    have hy : Covers X objs (.array o) (l y) :=
      (hl y).flow hX (hX (.through hbase (.storeArray hs) (by simp)))
    refine ⟨objs, List.prefix_rfl, hmem.modify ho fun h => ?_, hl⟩
    exact ⟨h.obj, h.fields, covers_update h.elems hy⟩

/-! ## Frames and states -/

/-- The method of the frame is reachable in the context, and so are the values of its variables. -/
structure FrameCovered (X : Set Fact) (objs : List HeapObj) (c : Context) (f : Frame) : Prop where
  reach : .reach ⟨c, f.method⟩ ∈ X
  locals : LocalsCovered X objs c f.locals

/-- Every frame is covered in some context, and every frame but the last was called by the one below
it. The context is that of the first frame. -/
inductive StackCovered (p : Program) (X : Set Fact) (objs : List HeapObj) :
    Context → Frame → List Frame → Prop
  | entry {c : Context} {f : Frame} : FrameCovered X objs c f → StackCovered p X objs c f []
  | called {c d : Context} {f g : Frame} {rest : List Frame} {x : Option VarId} {call : Call} :
      FrameCovered X objs c f → p.stmt? g.site = some (.invoke x call) →
      .edge ⟨d, g.site⟩ ⟨c, f.method⟩ ∈ X → StackCovered p X objs d g rest →
      StackCovered p X objs c f (g :: rest)

/-- The facts have all that the state has. -/
structure StateCovered (p : Program) (X : Set Fact) (objs : List HeapObj) (s : State) : Prop where
  memory : MemoryCovered X objs s.memory
  stack : ∀ f rest, s.stack = f :: rest → ∃ c, StackCovered p X objs c f rest

namespace StackCovered

variable {f g : Frame} {rest : List Frame}

theorem top (h : StackCovered p X objs c f rest) : FrameCovered X objs c f := by
  cases h with
  | entry hf => exact hf
  | called hf _ _ _ => exact hf

theorem mono (h : StackCovered p X objs c f rest) (hle : objs <+: objs') :
    StackCovered p X objs' c f rest := by
  induction h with
  | entry hf => exact .entry ⟨hf.reach, hf.locals.mono hle⟩
  | called hf hs he _ ih => exact .called ⟨hf.reach, hf.locals.mono hle⟩ hs he ih

/-- Only the method and the context of a frame matter to the frame below it. -/
theorem moveTop (h : StackCovered p X objs c f rest) (hl : LocalsCovered X objs c g.locals)
    (hm : g.method = f.method) : StackCovered p X objs c g rest := by
  have hg : FrameCovered X objs c g := ⟨hm ▸ h.top.reach, hl⟩
  cases h with
  | entry _ => exact .entry hg
  | called _ hs he hrest => exact .called hg hs (hm ▸ he) hrest

theorem mem (h : StackCovered p X objs c f rest) (hg : g ∈ f :: rest) :
    ∃ d, FrameCovered X objs d g := by
  induction h with
  | entry hf =>
    obtain rfl := List.mem_singleton.mp hg
    exact ⟨_, hf⟩
  | called hf _ _ _ ih =>
    rcases List.mem_cons.mp hg with rfl | hg
    · exact ⟨_, hf⟩
    · exact ih hg

/-- A call edge of the facts covers the frame that it starts: arguments flow into parameters, and
the receiver has the object. -/
theorem push (hX : Closed p opts false X) {d : Context} {x : Option VarId} {call : Call}
    {m : MethodId} {recv : Option Addr} (h : StackCovered p X objs c f rest)
    (hs : p.stmt? f.site = some (.invoke x call)) (hedge : .edge ⟨c, f.site⟩ ⟨d, m⟩ ∈ X)
    (hrecv : ∀ r, (p.method m).receiver = some r → Covers X objs (.var d r) recv) :
    StackCovered p X objs d (f.callee p m recv call.args) (f :: rest) := by
  refine .called ⟨hX (.callee hedge), ?_⟩ hs hedge h
  -- a variable that holds something is the receiver, or a parameter with its argument
  intro v a ha
  rcases Locals.enter_eq_some ha with ⟨hr, ha⟩ | ⟨k, hv, hk⟩
  · exact hrecv v hr a ha
  · rw [List.getElem?_map] at hk
    obtain ⟨y, hy, hya⟩ := Option.map_eq_some_iff.mp hk
    exact (h.top.locals y).flow hX (hX (.link hedge (.arg hs hy hv))) a hya

/-- The frame below goes on with what the first frame returns: nothing, or a variable that it
returns. -/
theorem pop (hX : Closed p opts false X) {v : Option Addr} (h : StackCovered p X objs c f rest)
    (hv : v = none ∨ ∃ y, p.stmt? f.site = some (.ret (some y)) ∧ v = f.locals y) :
    ∀ g gs, returnTo p v rest = g :: gs → ∃ d, StackCovered p X objs d g gs := by
  intro g gs hstack
  cases h with
  | entry _ => cases hstack
  | @called _ d _ g _ x call hf hs hedge hrest =>
    cases hstack
    refine ⟨d, hrest.moveTop (hrest.top.locals.put ?_) rfl⟩
    intro y hy
    rcases hv with rfl | ⟨w, hret, rfl⟩
    · exact covers_none
    · -- the call edge links what is returned to the result
      have hx : x = some y := by
        rw [Program.resultOf?, hs] at hy
        exact hy
      subst hx
      exact (hf.locals w).flow hX (hX (.link hedge (.result hs hret)))

end StackCovered

/-- A call on an object of the heap runs the method that the rules give for its abstract object. -/
theorem calleeOn_of_calleeFor {site site' : Site} {ty : Ty} {call : Call} {m : MethodId}
    (h : calleeFor p ty call = some m) :
    Machine.calleeOn p (.ofAlloc site ty) site' call = .ok (some m) := by
  unfold calleeFor at h
  unfold Machine.calleeOn
  split at h
  · rename_i hspecial
    simp only [hspecial, if_true, h]
  · rename_i hother
    cases ty with
    | ref cls =>
      have hm : p.dispatch cls call.ref.subsig = some m := h
      simp only [hother, if_false, Obj.ofAlloc, hm]
    | prim | array => cases h

/-- The call edge is taken in some contexts. -/
def EdgeCovered (X : Set Fact) (e : CallMade) : Prop := ∃ c d, .edge ⟨c, e.1⟩ ⟨d, e.2⟩ ∈ X

/-- One step leads from a state that the facts cover to another, along a call edge that they
cover. -/
theorem StateCovered.step (hX : Closed p opts false X) {s s' : State} {e : Option CallMade}
    (h : StateCovered p X objs s) (hstep : Step p s e s') :
    (∃ objs', StateCovered p X objs' s') ∧ ∀ k ∈ e.toList, EdgeCovered X k := by
  cases hstep with
  | start hm =>
    refine ⟨⟨objs, h.memory, ?_⟩, by simp⟩
    rintro f rest ⟨⟩
    -- entry methods are reachable in the empty context
    exact ⟨[], .entry ⟨hX (.entry hm), fun _ => covers_none⟩⟩
  | stmt hs he _ =>
    obtain ⟨c, hstack⟩ := h.stack _ _ rfl
    obtain ⟨objs', hle, hmem, hl⟩ :=
      effect_covered hX hstack.top.reach hs h.memory hstack.top.locals he
    refine ⟨⟨objs', hmem, ?_⟩, by simp⟩
    rintro f rest ⟨⟩
    exact ⟨c, (hstack.mono hle).moveTop hl rfl⟩
  | @call mem f rest x call r m hs hbase hr hm =>
    obtain ⟨c, hstack⟩ := h.stack _ _ rfl
    have hedge := hX (.stmt hstack.top.reach (.call hs hbase hr hm))
    refine ⟨⟨objs, h.memory, ?_⟩, ?_⟩
    · rintro f rest ⟨⟩
      exact ⟨_, hstack.push hX hs hedge fun _ _ => covers_none⟩
    · rintro k hk
      obtain rfl := List.mem_singleton.mp hk
      exact ⟨_, _, hedge⟩
  | @callOn mem f rest x call b a cell m hs hbase hb hcell hm =>
    obtain ⟨c, hstack⟩ := h.stack _ _ rfl
    obtain ⟨o, ho, hholds⟩ := hstack.top.locals b a hb
    -- the callee depends on the type of the object only, which its abstract object has too
    have hobj := (h.memory.cells ho hcell).obj
    have hcallee : Machine.calleeOn p o.obj f.site call = .ok (some m) :=
      hobj ▸ calleeOn_of_calleeFor hm
    have hedge := hX (.through hholds (.call hs hbase hcallee) (by simp))
    refine ⟨⟨objs, h.memory, ?_⟩, ?_⟩
    · rintro f rest ⟨⟩
      refine ⟨_, hstack.push hX hs hedge ?_⟩
      -- the rule of the call puts the object into the receiver as well
      rintro r hr a ⟨⟩
      exact ⟨o, ho, hX (.through hholds (.receiver hs hbase hcallee hr) (by simp))⟩
    · rintro k hk
      obtain rfl := List.mem_singleton.mp hk
      exact ⟨_, _, hedge⟩
  | @ret mem f rest y hs =>
    obtain ⟨c, hstack⟩ := h.stack _ _ rfl
    refine ⟨⟨objs, h.memory, hstack.pop hX ?_⟩, by simp⟩
    cases y with
    | none => exact Or.inl rfl
    | some y => exact Or.inr ⟨y, hs, rfl⟩
  | fall _ =>
    obtain ⟨c, hstack⟩ := h.stack _ _ rfl
    exact ⟨⟨objs, h.memory, hstack.pop hX (Or.inl rfl)⟩, by simp⟩
  | stop =>
    refine ⟨⟨objs, h.memory, ?_⟩, by simp⟩
    rintro f rest ⟨⟩

/-- The facts cover every state that a run leads to and every call edge on the way. -/
theorem trace_covered (hX : Closed p opts false X) {calls : List CallMade} {s : State}
    (h : Trace p calls s) :
    (∃ objs, StateCovered p X objs s) ∧ ∀ k ∈ calls, EdgeCovered X k := by
  induction h with
  | nil =>
    refine ⟨⟨[], ⟨rfl, ?_, fun _ => covers_none⟩, ?_⟩, by simp⟩
    · intro a o cell ho
      cases ho
    · rintro f rest ⟨⟩
  | step _ hstep ih =>
    obtain ⟨⟨objs, hs⟩, hcalls⟩ := ih
    obtain ⟨hs', he⟩ := hs.step hX hstep
    refine ⟨hs', fun k hk => ?_⟩
    exact (List.mem_append.mp hk).elim (hcalls k) (he k)

/-! ## What a result says of every run -/

/-- The result names all that a run has come to: the objects of the variables, the methods that run
and the call edges that were taken. -/
structure Result.Accounts (r : Result) (calls : List CallMade) (s : State) : Prop where
  mayPointTo : ∀ f ∈ s.stack, ∀ x a, f.locals x = some a →
    ∃ cell, s.memory.heap[a]? = some cell ∧ r.MayPointTo x (.ofAlloc cell.site cell.ty)
  reachable : ∀ f ∈ s.stack, f.method ∈ r.callGraph.reachable
  edges : ∀ e ∈ calls, r.callGraph.HasEdge e.1 e.2

/-- Facts that cover a state are those of a result that accounts for it. -/
theorem StateCovered.accounts {K : Set Obj} {r : Result} (hok : r.core.Ok K)
    {calls : List CallMade} {s : State} (h : StateCovered p r.core.facts objs s)
    (hcalls : ∀ k ∈ calls, EdgeCovered r.core.facts k) :
    r.Accounts calls s := by
  have hframe : ∀ f ∈ s.stack, ∃ c, FrameCovered r.core.facts objs c f := by
    intro f hf
    cases hstack : s.stack with
    | nil =>
      rw [hstack] at hf
      cases hf
    | cons g rest =>
      obtain ⟨c, hc⟩ := h.stack g rest hstack
      exact hc.mem (hstack ▸ hf)
  refine ⟨?_, ?_, ?_⟩
  · intro f hf x a hx
    obtain ⟨c, hc⟩ := hframe f hf
    obtain ⟨o, ho, hholds⟩ := hc.locals x a hx
    have hlt : a < s.memory.heap.length := h.memory.length ▸ (List.getElem?_eq_some_iff.mp ho).1
    have hcell := List.getElem?_eq_getElem hlt
    refine ⟨_, hcell, (Result.mayPointTo_iff hok).mpr ⟨c, o.ctx, ?_⟩⟩
    rw [← (h.memory.cells ho hcell).obj]
    exact hholds
  · intro f hf
    obtain ⟨c, hc⟩ := hframe f hf
    exact Result.reachable_iff.mpr ⟨c, hc.reach⟩
  · intro e he
    exact Result.hasEdge_iff.mpr (hcalls e he)

/-- Soundness: whenever a variable of a frame holds an object, the result has the object of its
allocation site for the variable, and every call edge that is taken is an edge of the call graph. -/
theorem analyze_sound {r : Result} (h : (analyze p opts).start.1 = .ok r) {calls : List CallMade}
    {s : State} (htrace : Trace p calls s) : r.Accounts calls s := by
  obtain ⟨⟨objs, hs⟩, hcalls⟩ := trace_covered (analyze_closed h) htrace
  exact hs.accounts (analyze_core_ok h) hcalls

/-- A run of the two nodes: `found` gets the second node, by the call of `after`. -/
theorem TwoNodes.trace : ∃ s, Trace program [(⟨0, 3⟩, 1)] s ∧ ∃ f ∈ s.stack, f.locals 2 = some 1 ∧
    s.memory.heap[1]?.map (fun cell => (cell.site, cell.ty)) = some (⟨0, 1⟩, node) := by
  have h := Trace.nil.step (.start (p := program) (m := 0) (by decide))
  have h := h.step (.stmt rfl .new (j := 1) (by decide))
  have h := h.step (.stmt rfl .new (j := 2) (by decide))
  have h := h.step (.stmt rfl (.storeField rfl) (j := 3) (by decide))
  have h := h.step (.callOn rfl rfl rfl rfl (m := 1) (by decide))
  have h := h.step (.stmt rfl (.loadField rfl rfl) (j := 1) (by decide))
  have h := h.step (.ret rfl)
  exact ⟨_, h, _, List.mem_cons_self, rfl, rfl⟩

/-- So the analysis of the two nodes has the second node for `found`, and the call of `after`. -/
theorem analyze_sound_twoNodes :
    ∃ r, (analyze TwoNodes.program { selector := ⟨.object, 2, 1⟩ }).start.1 = .ok r ∧
      r.MayPointTo 2 (.ofAlloc ⟨0, 1⟩ TwoNodes.node) ∧ r.callGraph.HasEdge ⟨0, 3⟩ 1 := by
  obtain ⟨r, hr⟩ := analyze_succeeds_of_resolvable { selector := ⟨.object, 2, 1⟩ }
    TwoNodes.resolvable (by decide) (by decide)
  obtain ⟨s, htrace, f, hf, hx, hmade⟩ := TwoNodes.trace
  have haccounts := analyze_sound hr htrace
  obtain ⟨cell, hcell, hmay⟩ := haccounts.mayPointTo f hf 2 1 hx
  rw [hcell] at hmade
  obtain ⟨hsite, hty⟩ := Prod.mk.inj (Option.some.inj hmade)
  rw [hsite, hty] at hmay
  exact ⟨r, hr, hmay, haccounts.edges _ List.mem_cons_self⟩

end WholeProgram.PointsTo
