import WholeProgram.Dataflow.Constants
import WholeProgram.Dataflow.Liveness

/-!
# Dead code

A statement is dead when no walk from the entry reaches it that leaves out the branches which the
constants rule out, or when it only assigns a variable that nobody reads afterwards.
-/

namespace WholeProgram.DeadCode

structure Options where
  /-- Iteration limit of the two analyses. -/
  limit : Int := 0
  /-- Report unreachable statements only. -/
  ignoreAssignments : Bool := false
  /-- Leave out assignments whose right-hand side may have an effect. -/
  skipSideEffects : Bool := false

/-- The edges of a node that the constants before it leave possible. A return ends the walk. -/
def feasibleEdges (g : Cfg) (n : Nat) (f : Fact) : List Edge :=
  let out := g.outEdges n
  match g.method.stmtAt n with
  | .branch op x y _ =>
    match Value.binary op (f.get x) (f.get y) with
    | .const c =>
      let taken : EdgeKind := if c = 0 then .ifFalse else .ifTrue
      out.filter fun e => e.kind == taken
    | _ => out
  | .switch v _ _ =>
    match f.get v with
    | .const c =>
      let matched := out.filter fun e => e.kind == .switchCase c
      if matched.isEmpty then out.filter fun e => e.kind == .switchDefault else matched
    | _ => out
  | _ => out.filter fun e => e.kind != .ret

theorem feasibleEdges_sublist (g : Cfg) (n : Nat) (f : Fact) :
    (feasibleEdges g n f).Sublist (g.outEdges n) := by
  unfold feasibleEdges
  dsimp only
  split
  · split
    · exact List.filter_sublist
    · exact List.Sublist.refl _
  · split
    · split <;> exact List.filter_sublist
    · exact List.Sublist.refl _
  · exact List.filter_sublist

/-- The targets of the feasible edges of a node that are not marked yet. -/
def newTargets (g : Cfg) (constants : Solution Fact) (n : Nat) (reached : IdSet) : List Nat :=
  ((feasibleEdges g n (constants.inFact n)).map (·.target)).filter fun k => !reached.contains k

theorem length_newTargets_le (g : Cfg) (constants : Solution Fact) (n : Nat) (reached : IdSet) :
    (newTargets g constants n reached).length ≤ (g.outEdges n).length := by
  have hfilter := List.length_filter_le (fun k => !reached.contains k)
    ((feasibleEdges g n (constants.inFact n)).map (·.target))
  rw [List.length_map] at hfilter
  exact Nat.le_trans hfilter (feasibleEdges_sublist g n _).length_le

/-- The number of edges that a walk may still take from a node: none if the node is marked. -/
def edgesAt (g : Cfg) (reached : IdSet) (n : Nat) : Nat :=
  if n ∈ reached then 0 else (g.outEdges n).length

theorem edgesAt_insert_self (g : Cfg) (reached : IdSet) (n : Nat) : edgesAt g (reached.insert n) n = 0 := by
  simp [edgesAt]

theorem edgesAt_insert_of_ne (g : Cfg) (reached : IdSet) {k n : Nat} (h : k ≠ n) :
    edgesAt g (reached.insert n) k = edgesAt g reached k := by
  simp [edgesAt, h]

/-- The number of edges that a walk may still take. -/
def edgesAhead (g : Cfg) (reached : IdSet) : Nat :=
  (List.range g.outs.size).foldr (fun n count => edgesAt g reached n + count) 0

theorem foldr_edgesAt_insert_le (g : Cfg) (reached : IdSet) (n : Nat) (ns : List Nat) :
    (if n ∈ ns then edgesAt g reached n else 0)
        + ns.foldr (fun k count => edgesAt g (reached.insert n) k + count) 0 ≤
      ns.foldr (fun k count => edgesAt g reached k + count) 0 := by
  induction ns with
  | nil => simp
  | cons k ns ih =>
    simp only [List.foldr_cons, List.mem_cons]
    by_cases hk : k = n
    · subst hk
      rw [edgesAt_insert_self, if_pos (Or.inl rfl)]
      split at ih <;> omega
    · rw [edgesAt_insert_of_ne g reached hk]
      simp only [Ne.symm hk, false_or]
      omega

/-- Marking a node leaves its edges out of the count. -/
theorem edgesAhead_insert (g : Cfg) {n : Nat} {reached : IdSet} (h : n ∉ reached) :
    (g.outEdges n).length + edgesAhead g (reached.insert n) ≤ edgesAhead g reached := by
  have hat : edgesAt g reached n = (g.outEdges n).length := if_neg h
  have hle := foldr_edgesAt_insert_le g reached n (List.range g.outs.size)
  rw [hat] at hle
  by_cases hn : n < g.outs.size
  · rwa [if_pos (List.mem_range.mpr hn)] at hle
  · -- no edge leaves what is no node
    have hnone : g.outEdges n = [] := by
      simp [Cfg.outEdges, Array.getD_eq_getD_getElem?, Array.getElem?_eq_none (Nat.le_of_not_lt hn)]
    rw [if_neg fun h => hn (List.mem_range.mp h)] at hle
    rwa [hnone, List.length_nil]

/-- Walks on from the nodes of a stack along the feasible edges, and returns the marked nodes. A node is
marked when it is taken from the stack, so that until then it can be put there again; one that is taken
a second time is dropped. -/
def walk (g : Cfg) (constants : Solution Fact) (stack : List Nat) (reached : IdSet) : IdSet :=
  match stack with
  | [] => reached
  | n :: rest =>
    if n ∈ reached then
      walk g constants rest reached
    else
      let marked := reached.insert n
      walk g constants ((newTargets g constants n marked).reverse ++ rest) marked
termination_by stack.length + edgesAhead g reached
decreasing_by
  · simp only [List.length_cons]
    omega
  · rename_i hn
    have htargets := length_newTargets_le g constants n (reached.insert n)
    have hedges := edgesAhead_insert g hn
    simp only [List.length_append, List.length_reverse, List.length_cons]
    omega

/-- The nodes that a walk along the feasible edges reaches from the entry. -/
def reachable (g : Cfg) (constants : Solution Fact) : IdSet := walk g constants [0] ∅

/-- The statement defines a variable that is not live after it. -/
def isDeadAssignment (s : Stmt Nat) (liveAfter : IdSet) : Bool :=
  match s.defined? with
  | some x => !liveAfter.contains x
  | none => false

/-- Removing the assignment changes nothing else: it copies or computes, and does not divide by what
may be zero. -/
def hasNoSideEffect (s : Stmt Nat) (f : Fact) : Bool :=
  match s with
  | .literal _ _ | .copy _ _ => true
  | .binary _ op _ y =>
    if op = .div ∨ op = .rem then
      match f.get y with
      | .const c => c != 0
      | _ => false
    else true
  | _ => false

/-- The dead statements of a method, by index. -/
def detect (g : Cfg) (constants : Solution Fact) (live : Solution IdSet) (opts : Options) : List Nat :=
  let reached := reachable g constants
  (List.range g.method.body.size).filter fun i =>
    let s := g.method.stmtAt (i + 1)
    !reached.contains (i + 1)
      || (!opts.ignoreAssignments && isDeadAssignment s (live.outFact (i + 1))
        && (!opts.skipSideEffects || hasNoSideEffect s (constants.inFact (i + 1))))

/-- The dead statements of a method. -/
def analyze (p : Program) (m : MethodId) (opts : Options) : Logged AnalysisError (List Nat) := do
  let name := p.methodText m
  let constants ← AnalysisError.inPart ("constant propagation of " ++ name ++ " failed") (Constants.analyze p m opts.limit)
  let live ← AnalysisError.inPart ("live variable analysis of " ++ name ++ " failed") (Liveness.analyze p m opts.limit)
  let dead := detect (Cfg.ofMethod (p.method m)) constants live opts
  Logged.say .debug (name ++ ": " ++ toString dead.length ++ " dead statements out of "
    ++ toString (p.method m).body.size)
  return dead

/-- The methods of a program that have dead statements, with these. -/
def analyzeProgram (p : Program) (opts : Options) : Logged AnalysisError (List (MethodId × List Nat)) := do
  let mut found := #[]
  for m in List.range p.methods.size do
    if (p.method m).body.isEmpty then continue
    let dead ← analyze p m opts
    if !dead.isEmpty then
      found := found.push (m, dead)
  return found.toList

end WholeProgram.DeadCode
