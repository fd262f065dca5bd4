import WholeProgram.Proofs.Dataflow.ConstantSoundness
import WholeProgram.Proofs.Dataflow.Refinement
import WholeProgram.Proofs.Program.Calls

/-!
# Interprocedural constants hold in every run

Every frame of a stack is covered by what is before its node: an integer variable holds what the fact
allows. For facts that flow along the edges of a supergraph, calls and returns keep this.

* `Conducts` — what a run over a supergraph needs of facts, whichever analysis they are from;
* `IntFlows`, `covers_bind`, `covers_assign` — where arguments for integer parameters and returned
  variables for integer results hold integers themselves, callees start covered and callers go on covered;
* `Stack` — every frame is covered, and was called by the one below it;
* `Stack.go`, `Stack.push`, `Stack.skip`, `Stack.pop` — statements, calls and returns keep this;
* `stack_step`, `stack_run` — one step keeps the stack covered, and so does a run of any length and any
  depth of calls;
* `Interprocedural.analyze_covers_stacks` — so the result of the analysis says of an integer variable what
  it holds.
-/

namespace WholeProgram

namespace Supergraph

/-- What is before the nodes of a supergraph. -/
abbrev before (g : Supergraph) (a : Assignment Fact) (n : Node) : Fact := a.before (g.number n)

/-- What is after the nodes of a supergraph. -/
abbrev after (g : Supergraph) (a : Assignment Fact) (n : Node) : Fact := a.after (g.number n)

end Supergraph

namespace Calls

open Body Interprocedural

/-! ## Facts along the steps of a run -/

theorem stmtAt_exit (m : Method) : m.stmtAt m.exit = .nop := by
  rw [Method.exit, Method.stmtAt, Method.stmt?_eq_none_of_exit_le (Nat.le_refl m.exit)]
  rfl

/-- Control goes on after a call. -/
theorem outEdges_call {p : Program} {s : Site} (h : (p.callAt? s).isSome = true) :
    (p.method s.method).outEdges (s.index + 1) = [⟨.fallThrough, s.index + 1, s.index + 2⟩] := by
  rw [Program.callAt?, Program.stmt?] at h
  cases hs : (p.method s.method).stmt? s.index with
  | none =>
    rw [hs] at h
    cases h
  | some t =>
    cases t with
    | invoke => simp only [Method.outEdges, hs]
    | _ =>
      rw [hs] at h
      cases h

/-- Facts before and after the nodes of a supergraph that a run can follow: they flow from entries to
first statements, along the edges of the methods, past calls, into callees and back, and nodes that
compute nothing leave them as they are. The nodes where a run comes are nodes of the supergraph. -/
structure Conducts (p : Program) (g : Supergraph) (before after : Node → Fact) : Prop where
  calls : ∀ s, ∀ m ∈ g.calleesOf s, (p.callAt? s).isSome = true
  start : ∀ m ∈ g.entries, m ∈ g.methods →
    ⟨m, 1⟩ ∈ g.nodes ∧ Constants.entryFact (p.method m) ≤ before ⟨m, 1⟩
  go : ∀ n ∈ g.nodes, (p.stmtAt n).call? = none → ∀ e ∈ (p.method n.method).outEdges n.node,
    ⟨n.method, e.target⟩ ∈ g.nodes ∧ after n ≤ before ⟨n.method, e.target⟩
  pass : ∀ s : Site, s.node ∈ g.nodes → (p.callAt? s).isSome = true →
    ⟨s.method, s.index + 2⟩ ∈ g.nodes ∧ passCall p g s (before s.node) ≤ before ⟨s.method, s.index + 2⟩
  enter : ∀ s : Site, s.node ∈ g.nodes → ∀ m ∈ g.calleesOf s,
    ⟨m, 1⟩ ∈ g.nodes ∧ enterCallee p s m (before s.node) ≤ before ⟨m, 1⟩
  leave : ∀ s : Site, s.node ∈ g.nodes → ∀ m ∈ g.calleesOf s,
    leaveCallee p s m (before ⟨m, (p.method m).exit⟩) ≤ before ⟨s.method, s.index + 2⟩
  idle : ∀ n ∈ g.nodes, n.node ≠ 0 → (p.stmtAt n).defined? = none → after n = before n

section Flows

variable {p : Program} {cg : MethodCallGraph} {a : Assignment Fact}

/-- Along an edge of the supergraph to a node other than an entry of a run, facts flow. -/
theorem flow_le (hp : p.WellFormed) (hcg : cg.Built) (h : Flows p (.ofCallGraph p cg) a) {e : SuperEdge}
    (he : Supergraph.Joins p cg e) (hb : isBoundary (.ofCallGraph p cg) e.target = false) :
    e.target ∈ (Supergraph.ofCallGraph p cg).nodes ∧
      flow p (.ofCallGraph p cg) e.link ((Supergraph.ofCallGraph p cg).after a e.source) ≤
        (Supergraph.ofCallGraph p cg).before a e.target := by
  have htarget := he.target_mem hp hcg.consistent
  exact ⟨htarget, (h.before _ htarget hb).1 ⟨e, (Supergraph.mem_inEdges hp hcg htarget).mpr ⟨he, rfl⟩, rfl⟩⟩

/-- So they do along an edge of a method that does not leave a call. -/
theorem after_le_before (hp : p.WellFormed) (hcg : cg.Built) (h : Flows p (.ofCallGraph p cg) a)
    {m : MethodId} {n : Nat} {e : Edge} (hm : m ∈ cg.reachable) (hcall : ((p.method m).stmtAt n).call? = none)
    (he : e ∈ (p.method m).outEdges n) :
    ⟨m, e.target⟩ ∈ (Supergraph.ofCallGraph p cg).nodes ∧
      (Supergraph.ofCallGraph p cg).after a ⟨m, n⟩ ≤
        (Supergraph.ofCallGraph p cg).before a ⟨m, e.target⟩ := by
  refine flow_le hp hcg h (.normal hm he hcall) (Bool.and_eq_false_iff.mpr (Or.inl ?_))
  simpa using Method.target_ne_zero_of_mem_outEdges he

/-- A callee is reachable, and the site that calls it is a call. -/
theorem reachable_of_mem_calleesOf (hcg : cg.Built) {s : Site} {m : MethodId}
    (hm : m ∈ (Supergraph.ofCallGraph p cg).calleesOf s) :
    (p.callAt? s).isSome = true ∧ m ∈ cg.reachable := by
  obtain ⟨-, hcall, -, hreach⟩ := (Supergraph.mem_calleesOf hcg.consistent).mp hm
  exact ⟨hcall, hreach⟩

/-- Facts with these flows, where what computes nothing changes nothing, conduct runs. -/
theorem conducts_of_flows (hp : p.WellFormed) (hcg : cg.Built) (h : Flows p (.ofCallGraph p cg) a)
    (hidle : ∀ n ∈ (Supergraph.ofCallGraph p cg).nodes, isBoundary (.ofCallGraph p cg) n = false →
      (p.stmtAt n).defined? = none ∨ (p.stmtAt n).call?.isSome = true →
      (Supergraph.ofCallGraph p cg).after a n = (Supergraph.ofCallGraph p cg).before a n) :
    Conducts p (.ofCallGraph p cg) ((Supergraph.ofCallGraph p cg).before a)
      ((Supergraph.ofCallGraph p cg).after a) := by
  set g := Supergraph.ofCallGraph p cg
  have hfirst : ∀ {m : MethodId}, m ∈ cg.reachable →
      ⟨m, 1⟩ ∈ g.nodes ∧ g.after a ⟨m, 0⟩ ≤ g.before a ⟨m, 1⟩ := fun hm =>
    after_le_before (e := ⟨.entry, 0, 1⟩) hp hcg h hm rfl List.mem_cons_self
  -- entries and exits are nodes that compute nothing, and so are calls
  have hends : ∀ {m : MethodId}, m ∈ cg.reachable →
      ⟨m, 0⟩ ∈ g.nodes ∧ ⟨m, (p.method m).exit⟩ ∈ g.nodes := fun hm =>
    ⟨Supergraph.mem_nodes.mpr ⟨hm, Nat.succ_pos _⟩, Supergraph.mem_nodes.mpr ⟨hm, Nat.lt_succ_self _⟩⟩
  have hentry : ∀ {m : MethodId}, m ∈ cg.reachable → isBoundary g ⟨m, 0⟩ = true →
      g.after a ⟨m, 0⟩ = Constants.entryFact (p.method m) := fun hm hb => h.entry _ (hends hm).1 hb
  have hsite : ∀ {s : Site}, s.node ∈ g.nodes → (p.callAt? s).isSome = true →
      g.after a s.node = g.before a s.node := by
    intro s hs hcall
    refine hidle _ hs rfl (Or.inr ?_)
    rwa [← Program.callAt?_eq]
  have hexit : ∀ {m : MethodId}, m ∈ cg.reachable →
      g.after a ⟨m, (p.method m).exit⟩ = g.before a ⟨m, (p.method m).exit⟩ := by
    intro m hm
    refine hidle _ (hends hm).2 rfl (Or.inl ?_)
    show ((p.method m).stmtAt (p.method m).exit).defined? = none
    rw [stmtAt_exit]
    rfl
  have hpast : ∀ {s : Site}, (p.callAt? s).isSome = true →
      (⟨.fallThrough, s.index + 1, s.index + 2⟩ : Edge) ∈ (p.method s.method).outEdges (s.index + 1) := by
    intro s hcall
    rw [outEdges_call hcall]
    exact List.mem_cons_self
  refine ⟨fun s m hm => (reachable_of_mem_calleesOf hcg hm).1, fun m hm hmem => ?_,
    fun n hn hcall e he => after_le_before hp hcg h (Supergraph.mem_nodes.mp hn).1 hcall he,
    fun s hs hcall => ?_, fun s hs m hm => ?_, fun s hs m hm => ?_, fun n hn hzero hdef => ?_⟩
  · have hreach : m ∈ cg.reachable := Array.mem_toList_iff.mp hmem
    rw [← hentry hreach (by simpa [isBoundary] using hm)]
    exact hfirst hreach
  · rw [← hsite hs hcall]
    exact flow_le hp hcg h (.pass (Supergraph.mem_nodes.mp hs).1 hcall (hpast hcall)) rfl
  · obtain ⟨hcall, hreach⟩ := reachable_of_mem_calleesOf hcg hm
    refine ⟨(hfirst hreach).1, le_trans ?_ (hfirst hreach).2⟩
    by_cases hb : isBoundary g ⟨m, 0⟩ = true
    · rw [hentry hreach hb]
      exact enterCallee_le _ _ _ _
    · have hb := eq_false_of_ne_true hb
      rw [hidle _ (hends hreach).1 hb (Or.inl rfl), ← hsite hs hcall]
      exact (flow_le hp hcg h (.call hm) hb).2
  · obtain ⟨hcall, hreach⟩ := reachable_of_mem_calleesOf hcg hm
    rw [← hexit hreach]
    exact (flow_le hp hcg h (.ret hm (hpast hcall)) rfl).2
  · refine hidle n hn (Bool.and_eq_false_iff.mpr (Or.inl ?_)) (Or.inl hdef)
    simpa using hzero

end Flows

/-! ## Variables of callers and callees -/

/-- Integer parameters and integer results get what integer variables hold. -/
structure IntFlows (p : Program) (g : Supergraph) : Prop where
  args : ∀ s call, p.callAt? s = some call → ∀ m ∈ g.calleesOf s,
    ∀ b ∈ call.args.zip (p.method m).params.toList, p.holdsInt b.2 = true → p.holdsInt b.1 = true
  results : ∀ s x, p.resultOf? s = some x → p.holdsInt x = true → ∀ m ∈ g.calleesOf s,
    ∀ y ∈ (p.method m).returnVars, p.holdsInt y = true

variable {p : Program} {g : Supergraph} {before after : Node → Fact} {vars : Vars} {s : Site}
  {call : Call} {m : MethodId}

/-- Whether all arguments and all returned variables hold integers can be checked method by method. -/
theorem intFlows_of_methods (h : ∀ m ∈ p.methods.toList,
    (m.body.toList.all fun i => i.stmt.call?.all fun c => c.args.all p.holdsInt) ∧
      m.returnVars.all p.holdsInt) : IntFlows p g where
  args s call hcall m _ b hb _ := by
    have hs : (p.stmtAt s.node).call? = some call := (p.callAt?_eq s).symm.trans hcall
    obtain ⟨k, hk, i, hi, hstmt⟩ := Program.exists_instr_of_stmtAt (n := s.node) (by
      intro hnop
      rw [hnop] at hs
      cases hs)
    have hall := List.all_eq_true.mp (h k hk).1 i hi
    rw [hstmt, hs] at hall
    exact List.all_eq_true.mp hall b.1 (List.of_mem_zip hb).1
  results s x _ _ m _ y hy := by
    rcases p.method_mem_or_default m with hm | hm
    · exact List.all_eq_true.mp (h _ hm).2 y hy
    · rw [hm] at hy
      cases hy

/-- A variable gets a datum, and its value allows it if it holds integers. -/
theorem covers_update {f : Fact} (h : Constants.Covers p f vars) (x : VarId) {v : Value} {d : Datum}
    (hd : p.holdsInt x = true → v.Allows d) :
    Constants.Covers p (if p.holdsInt x then f.update x v else f) (Function.update vars x (some d)) := by
  intro w e hw hint
  by_cases hwx : w = x
  · subst hwx
    rw [Function.update_self] at hw
    obtain rfl := Option.some.inj hw
    rw [if_pos hint, Fact.get_update_self]
    exact hd hint
  · rw [Function.update_of_ne hwx] at hw
    have hsame : (if p.holdsInt x then f.update x v else f).get w = f.get w := by
      split
      · exact Fact.get_update_of_ne _ _ (Ne.symm hwx)
      · rfl
    rw [hsame]
    exact h w e hw hint

/-- Arguments are bound one after the other, and their values along with them. -/
theorem covers_bindArgs {f : Fact} (hf : Constants.Covers p f vars) {args params : List VarId}
    {ds : List Datum} {c : Fact} {l : Vars} (hc : Constants.Covers p c l)
    (hreads : vars.Reads args ds)
    (hint : ∀ b ∈ args.zip params, p.holdsInt b.2 = true → p.holdsInt b.1 = true) :
    Constants.Covers p
      ((args.zip params).foldl (fun c b => if p.holdsInt b.2 then c.update b.2 (f.get b.1) else c) c)
      ((params.zip ds).foldl (fun l b => Function.update l b.1 (some b.2)) l) := by
  induction args generalizing params ds c l with
  | nil =>
    obtain rfl : ds = [] := List.map_eq_nil_iff.mp hreads.symm
    simpa using hc
  | cons y args ih =>
    obtain _ | ⟨x, params⟩ := params
    · simpa using hc
    · obtain _ | ⟨d, ds⟩ := ds
      · cases hreads
      · obtain ⟨hd, hds⟩ := List.cons.inj hreads
        refine ih (covers_update hc x fun hx => hf y d hd ?_) hds fun b hb => ?_
        · exact hint (y, x) List.mem_cons_self hx
        · exact hint b (List.mem_cons_of_mem _ hb)

/-- What enters a callee covers the variables that it starts with. -/
theorem covers_bind (hp : p.WellFormed) (hflows : IntFlows p g) (hm : m ∈ g.calleesOf s)
    (hcall : p.callAt? s = some call) {f : Fact} (hf : Constants.Covers p f vars) {ds : List Datum}
    (hreads : vars.Reads call.args ds) (recv : Option Datum) :
    Constants.Covers p (enterCallee p s m f) (bind (p.method m) recv ds) := by
  unfold enterCallee bind
  rw [hcall]
  refine covers_bindArgs hf ?_ hreads (hflows.args s call hcall m hm)
  -- the receiver holds no integers
  intro v d hv hint
  cases hr : (p.method m).receiver with
  | none =>
    rw [hr] at hv
    cases hv
  | some r =>
    rw [hr] at hv
    have hrv : some r ≠ some v := by
      rintro ⟨⟩
      rw [hp.receiver m _ hr] at hint
      cases hint
    rw [assign_of_ne hrv] at hv
    cases hv

/-- What flows back to a caller allows what the caller gets, if its result holds integers. -/
theorem allows_leaveCallee {x : VarId} (hx : p.resultOf? s = some x) (hint : p.holdsInt x = true)
    {f : Fact} {v : Option Datum} {d : Datum} (hreturns : Returns (p.method m) v (some d))
    (hv : v = some d → ∃ y ∈ (p.method m).returnVars, (f.get y).Allows d) :
    ((leaveCallee p s m f).get x).Allows d := by
  unfold leaveCallee
  rw [hx]
  dsimp only
  rw [if_pos hint]
  cases hreturns with
  | unknown _ hnone =>
    rw [hnone]
    dsimp only
    rw [Fact.get_update_self]
    exact Value.allows_nac d
  | value hsome =>
    obtain ⟨y, hy, hallows⟩ := hv rfl
    split
    · rename_i hnone
      exact absurd hnone hsome
    · rw [Fact.get_update_self]
      exact hallows.mono (((foldl_sup_le_iff f.get _ ⊥ _).mp le_rfl).2 y hy)

/-- What passes by a call and what flows back cover the caller when it goes on. -/
theorem covers_assign {f f' : Fact} (hf : Constants.Covers p f vars) (hpass : passCall p g s f ≤ f')
    {d : Option Datum}
    (hresult : ∀ x e, p.resultOf? s = some x → d = some e → p.holdsInt x = true → (f'.get x).Allows e) :
    Constants.Covers p f' (assign vars (p.resultOf? s) d) := by
  intro v e hv hint
  by_cases hx : p.resultOf? s = some v
  · rw [hx, assign_self] at hv
    exact hresult v e hx hv hint
  · rw [assign_of_ne hx] at hv
    refine (hf v e hv hint).mono (le_of_eq_of_le ?_ (hpass v))
    rw [get_passCall, if_neg hx]

/-! ## Stacks -/

/-- The frame is at a node of the supergraph other than an entry, and what is before the node covers its
variables. -/
structure Covered (p : Program) (g : Supergraph) (before : Node → Fact) (f : Frame) : Prop where
  node : f.node ≠ 0
  mem : f.place ∈ g.nodes
  covers : Constants.Covers p (before f.place) f.vars

namespace Covered

variable {f : Frame}

theorem isBoundary (h : Covered p g before f) : isBoundary g f.place = false :=
  Bool.and_eq_false_iff.mpr (Or.inl (by simpa [Frame.place] using h.node))

/-- The effect of a statement other than a call covers what it does to the variables. -/
theorem transfer (h : Covered p g before f) (hint : ∀ m, (p.method m).IntOperands p) {ds : List Datum}
    {k : EdgeKind} {d : Option Datum} (hcall : (p.stmtAt f.place).call? = none)
    (hreads : f.vars.Reads (p.stmtAt f.place).uses ds) (hacts : Acts (p.stmtAt f.place) ds k d) :
    Constants.Covers p (Interprocedural.transfer p (p.stmtAt f.place) (before f.place))
      (f.vars.put (p.stmtAt f.place).defined? d) := by
  rw [transfer_eq hcall]
  exact Constants.Covers.transfer (n := f.node) (hint f.method) h.covers hreads hacts

end Covered

/-- Every frame is covered, and every frame but the last runs a callee of the call at which the one below
it waits. -/
inductive Stack (p : Program) (g : Supergraph) (before : Node → Fact) : List Frame → Prop
  | nil : Stack p g before []
  | entry {f : Frame} : Covered p g before f → Stack p g before [f]
  | called {f c : Frame} {rest : List Frame} {s : Site} : Covered p g before f → s.node = c.place →
      f.method ∈ g.calleesOf s → Stack p g before (c :: rest) → Stack p g before (f :: c :: rest)

namespace Stack

variable {f f' : Frame} {rest : List Frame}

theorem top (h : Stack p g before (f :: rest)) : Covered p g before f := by
  cases h with
  | entry hf => exact hf
  | called hf _ _ _ => exact hf

/-- The first frame goes on within its method. -/
theorem moveTop (h : Stack p g before (f :: rest)) (hm : f'.method = f.method)
    (hf : Covered p g before f') : Stack p g before (f' :: rest) := by
  cases h with
  | entry _ => exact .entry hf
  | called _ hs hcallee hrest => exact .called hf hs (hm ▸ hcallee) hrest

/-- A statement other than a call, whose effect what is after it covers. -/
theorem go (hc : Conducts p g before after) (h : Stack p g before (f :: rest))
    (hcall : (p.stmtAt f.place).call? = none) {e : Edge} (he : e ∈ (p.method f.method).outEdges f.node)
    (hvars : Constants.Covers p (after f.place) vars) :
    Stack p g before ({ f with node := e.target, vars } :: rest) := by
  obtain ⟨hmem, hle⟩ := hc.go _ h.top.mem hcall e he
  exact h.moveTop rfl ⟨Method.target_ne_zero_of_mem_outEdges he, hmem, hvars.mono hle⟩

/-- A call starts a frame for a callee. -/
theorem push (hp : p.WellFormed) (hflows : IntFlows p g) (hc : Conducts p g before after)
    (h : Stack p g before (f :: rest)) (hs : s.node = f.place) (hcall : p.callAt? s = some call)
    (hm : m ∈ g.calleesOf s) {ds : List Datum} (hreads : f.vars.Reads call.args ds)
    (recv : Option Datum) :
    Stack p g before (⟨m, 1, bind (p.method m) recv ds⟩ :: f :: rest) := by
  obtain ⟨hmem, hle⟩ := hc.enter s (hs ▸ h.top.mem) m hm
  have hcovers : Constants.Covers p (before s.node) f.vars := hs ▸ h.top.covers
  refine .called ⟨Nat.one_ne_zero, hmem, ?_⟩ hs hm h
  exact (covers_bind hp hflows hm hcall hcovers hreads recv).mono hle

/-- The frame goes on after its call, if its result is covered there. -/
theorem resume (hc : Conducts p g before after) (h : Stack p g before (f :: rest)) (hs : s.node = f.place)
    (hcall : (p.callAt? s).isSome = true) {d : Option Datum}
    (hresult : ∀ x e, p.resultOf? s = some x → d = some e → p.holdsInt x = true →
      ((before ⟨s.method, s.index + 2⟩).get x).Allows e) :
    Stack p g before (f.resume p d :: rest) := by
  obtain ⟨hmem, hpass⟩ := hc.pass s (hs ▸ h.top.mem) hcall
  have hcovers : Constants.Covers p (before s.node) f.vars := hs ▸ h.top.covers
  have hplace : (f.resume p d).place = ⟨s.method, s.index + 2⟩ := by
    obtain ⟨k, n, vars⟩ := f
    obtain ⟨rfl, rfl⟩ := Node.mk.inj hs
    rfl
  refine h.moveTop rfl ⟨Nat.succ_ne_zero _, hplace ▸ hmem, ?_⟩
  rw [hplace]
  have hvars := covers_assign hcovers hpass hresult
  rwa [Program.resultOf?_eq, hs] at hvars

/-- A call without callees: nothing is known of its result. -/
theorem skip (hc : Conducts p g before after) (h : Stack p g before (f :: rest)) (hs : s.node = f.place)
    (hcall : (p.callAt? s).isSome = true) (hnone : g.calleesOf s = []) (d : Option Datum) :
    Stack p g before (f.resume p d :: rest) := by
  refine h.resume hc hs hcall fun x e hx _ hint => ?_
  refine (Value.allows_nac e).mono (le_of_eq_of_le ?_ ((hc.pass s (hs ▸ h.top.mem) hcall).2 x))
  rw [get_passCall, if_pos hx, hnone, hint]
  rfl

/-- The first frame returns `v`, a variable that its method returns or nothing. -/
theorem pop (hflows : IntFlows p g) (hc : Conducts p g before after)
    (h : Stack p g before (f :: rest)) {v d : Option Datum} (hreturns : Returns (p.method f.method) v d)
    (hv : ∀ e, v = some e → ∃ y, p.stmtAt f.place = .ret (some y) ∧ f.vars y = some e) :
    Stack p g before (returnTo p d rest) := by
  cases h with
  | entry _ => exact .nil
  | @called _ c rest s hf hs hm hrest =>
    have hsite : s.node ∈ g.nodes := hs ▸ hrest.top.mem
    have hcall := hc.calls s _ hm
    refine hrest.resume hc hs hcall fun x e hx hd hint => ?_
    subst hd
    refine (allows_leaveCallee hx hint hreturns fun he => ?_).mono (hc.leave s hsite _ hm x)
    obtain ⟨y, hret, hy⟩ := hv e he
    obtain ⟨i, hi, hstmt⟩ := Method.exists_stmt?_of_stmtAt hret nofun
    have hmem : y ∈ (p.method f.method).returnVars := Method.mem_returnVars.mpr ⟨i, hstmt⟩
    have hallows := hf.covers y e hy (hflows.results s x hx hint _ hm y hmem)
    -- the facts at the return statement flow to the exit
    have hedge : (⟨.ret, f.node, (p.method f.method).exit⟩ : Edge) ∈
        (p.method f.method).outEdges f.node := by
      rw [show f.node = i + 1 from hi, Method.outEdges]
      simp only [show (p.method f.method).stmt? i = _ from hstmt, List.mem_singleton]
    rw [← hc.idle _ hf.mem hf.node (by rw [hret]; rfl)] at hallows
    exact ⟨y, hmem, hallows.mono ((hc.go _ hf.mem (by rw [hret]; rfl) _ hedge).2 y)⟩

end Stack

end Calls

end WholeProgram

/-! # Solutions cover all runs -/

namespace WholeProgram.Calls

open Body Interprocedural

variable {p : Program} {cg : MethodCallGraph} {a : Assignment Fact} {fs fs' : List Frame}

/-- Solutions of the equations conduct runs. -/
theorem conducts_of_equations (hp : p.WellFormed) (hcg : cg.Built)
    (h : Equations p (.ofCallGraph p cg) a) :
    Conducts p (.ofCallGraph p cg) ((Supergraph.ofCallGraph p cg).before a)
      ((Supergraph.ofCallGraph p cg).after a) :=
  conducts_of_flows hp hcg h.toFlows fun n hn hb hidle => (h.after n hn hb).trans (transfer_idle hidle _)

/-- What is after a statement other than a call covers what it does to the variables. -/
theorem covers_after (h : Equations p (.ofCallGraph p cg) a)
    (hint : ∀ m, (p.method m).IntOperands p) {f : Frame} {ds : List Datum} {k : EdgeKind}
    {d : Option Datum}
    (hf : Covered p (.ofCallGraph p cg) ((Supergraph.ofCallGraph p cg).before a) f)
    (hcall : (p.stmtAt f.place).call? = none) (hreads : f.vars.Reads (p.stmtAt f.place).uses ds)
    (hacts : Acts (p.stmtAt f.place) ds k d) :
    Constants.Covers p ((Supergraph.ofCallGraph p cg).after a f.place)
      (f.vars.put (p.stmtAt f.place).defined? d) := by
  rw [Supergraph.after, h.after _ hf.mem hf.isBoundary]
  exact hf.transfer hint hcall hreads hacts

/-- One step keeps the stack covered. -/
theorem stack_step (hp : p.WellFormed) (hcg : cg.Built) (h : Equations p (.ofCallGraph p cg) a)
    (hint : ∀ m, (p.method m).IntOperands p) (hflows : IntFlows p (.ofCallGraph p cg))
    (hfs : Stack p (.ofCallGraph p cg) ((Supergraph.ofCallGraph p cg).before a) fs)
    (hstep : Step p (.ofCallGraph p cg) fs fs') :
    Stack p (.ofCallGraph p cg) ((Supergraph.ofCallGraph p cg).before a) fs' := by
  have hc := conducts_of_equations hp hcg h
  cases hstep with
  | go hcall hreads hacts hfind =>
    exact hfs.go hc hcall (List.mem_of_find?_eq_some hfind)
      (covers_after h hint hfs.top hcall hreads hacts)
  | call hs hcall _ hreads hm => exact hfs.push hp hflows hc hs hcall hm hreads _
  | skip d hs hcall _ _ hnone => exact hfs.skip hc hs (by rw [hcall]; rfl) hnone _
  | ret hret hreads hreturns =>
    refine hfs.pop hflows hc hreturns fun e he => ?_
    obtain ⟨y, rfl, hy⟩ := hreads.of_head? he
    exact ⟨y, hret, hy⟩
  | fall _ hreturns => exact hfs.pop hflows hc hreturns fun e he => by cases he

/-- Along a run, every frame is covered. -/
theorem stack_run (hp : p.WellFormed) (hcg : cg.Built) (h : Equations p (.ofCallGraph p cg) a)
    (hint : ∀ m, (p.method m).IntOperands p) (hflows : IntFlows p (.ofCallGraph p cg))
    (hrun : Run p (.ofCallGraph p cg) fs) :
    Stack p (.ofCallGraph p cg) ((Supergraph.ofCallGraph p cg).before a) fs := by
  induction hrun with
  | start hentry hm hstart =>
    obtain ⟨hmem, hle⟩ := (conducts_of_equations hp hcg h).start _ hentry hm
    have hcovers := Constants.covers_entryFact (p := p) fun v => (hstart v).mp
    exact .entry ⟨Nat.one_ne_zero, hmem, hcovers.mono hle⟩
  | step _ hstep ih => exact stack_step hp hcg h hint hflows ih hstep

end WholeProgram.Calls

namespace WholeProgram.Boxed

open Body Calls

theorem mem_calleesOf {s : Site} {m : MethodId} : m ∈ graph.calleesOf s ↔ s = ⟨0, 3⟩ ∧ m = 1 := by
  rw [graph, Supergraph.mem_calleesOf built.consistent, hasEdge_iff]
  constructor
  · exact fun h => h.2.2.1
  · rintro ⟨rfl, rfl⟩
    exact ⟨mem_reachable.mpr (Or.inl rfl), rfl, ⟨rfl, rfl⟩, mem_reachable.mpr (Or.inr rfl)⟩

theorem intOperands (m : MethodId) : (program.method m).IntOperands program :=
  Method.intOperands_of_methods (by decide) m

theorem intFlows {g : Supergraph} : IntFlows program g := intFlows_of_methods (by decide)

/-- The run into `twice`, up to where the sum is returned. -/
theorem run : ∃ vars rest, Run program graph (⟨1, 2, vars⟩ :: rest) ∧ vars 5 = some (.int 14) := by
  have h : Run program graph [⟨0, 1, fun _ => none⟩] :=
    .start (by simp [entries_eq]) (Array.mem_toList_iff.mpr (mem_reachable.mpr (Or.inl rfl)))
      fun v => by simp [program, Program.method]
  have h := h.step (.go rfl (show Vars.Reads _ _ [] from rfl) .literal
    (show _ = some ⟨.fallThrough, 1, 2⟩ from rfl))
  have h := h.step (.go rfl (show Vars.Reads _ _ [] from rfl) (.produce (.other 0) rfl)
    (show _ = some ⟨.fallThrough, 2, 3⟩ from rfl))
  have h := h.step (.go rfl (show Vars.Reads _ _ [.other 0, .int 7] from rfl) (.store rfl)
    (show _ = some ⟨.fallThrough, 3, 4⟩ from rfl))
  have h := h.step (.call (s := ⟨0, 3⟩) rfl rfl (show Vars.Reads _ _ [] from rfl)
    (show Vars.Reads _ _ [.int 7] from rfl) (mem_calleesOf.mpr ⟨rfl, rfl⟩))
  have h := h.step (.go rfl (show Vars.Reads _ _ [.int 7, .int 7] from rfl) (.binary (.ints rfl))
    (show _ = some ⟨.fallThrough, 1, 2⟩ from rfl))
  exact ⟨_, _, h, Vars.put_self _⟩

end WholeProgram.Boxed

namespace WholeProgram.Interprocedural

open Body Calls

variable {p : Program} {cg : MethodCallGraph}

/-- Whenever the running frame is about to execute a statement, an integer variable that holds `x` is not a
constant before that statement, or the constant `x`. Without a limit there is a result, unless there is no
entry or an operator does not exist. -/
theorem analyze_covers_stacks (hp : p.WellFormed) (hcg : cg.Built)
    (hint : ∀ m, (p.method m).IntOperands p) (hflows : IntFlows p (.ofCallGraph p cg)) :
    (∀ limit c, (analyze p (.ofCallGraph p cg) limit).start.1 = .ok c →
      ∀ f rest, Run p (.ofCallGraph p cg) (f :: rest) →
        ∀ v x, p.holdsInt v = true → f.vars v = some (.int x) →
          (c.inFact ((Supergraph.ofCallGraph p cg).number f.place)).get v = .nac ∨
          (c.inFact ((Supergraph.ofCallGraph p cg).number f.place)).get v = .const x) ∧
    ((Supergraph.ofCallGraph p cg).entries ≠ [] → Declared p (.ofCallGraph p cg) → ∀ limit ≤ 0,
      ∃ c, (analyze p (.ofCallGraph p cg) limit).start.1 = .ok c) := by
  have hg := Supergraph.indexed_ofCallGraph hp hcg
  constructor
  · intro limit c hc f rest hrun v x hv hx
    have hequations := (leastSolution_of_outcome hg (outcome_of_solve hc)).solves
    rcases (stack_run hp hcg hequations hint hflows hrun).top.covers v _ hx hv with hnac | ⟨y, hy, hxy⟩
    · exact Or.inl hnac
    · rw [Datum.int.inj hxy]
      exact Or.inr hy
  · intro hentry hops limit hlimit
    exact (analyze_ends hp hg hlimit).solved hentry hops

/-- In `twice`, the sum is not a constant or it is fourteen. -/
theorem analyze_covers_stacks_boxed :
    ∃ c, (analyze Boxed.program Boxed.graph 0).start.1 = .ok c ∧
      ((c.inFact (Boxed.graph.number ⟨1, 2⟩)).get 5 = .nac ∨
        (c.inFact (Boxed.graph.number ⟨1, 2⟩)).get 5 = .const 14) := by
  obtain ⟨hsound, hexists⟩ :=
    analyze_covers_stacks Boxed.wellFormed Boxed.built Boxed.intOperands Boxed.intFlows
  obtain ⟨c, hc⟩ := hexists Boxed.entries_ne_nil Boxed.declared 0 le_rfl
  obtain ⟨vars, rest, hrun, hsum⟩ := Boxed.run
  exact ⟨c, hc, hsound 0 c hc _ _ hrun 5 14 (by decide) hsum⟩

end WholeProgram.Interprocedural
