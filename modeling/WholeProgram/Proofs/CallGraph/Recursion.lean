import WholeProgram.Proofs.CallGraph.Views
import WholeProgram.Proofs.Graph.Cycles

/-!
# Components and cycles agree on recursion

* `toGraph_spec` — the graph of the methods has an edge where a method calls another (`Calls`);
* `reflTransGen_arc_iff` — so its paths are chains of calls;
* `recursion_agrees` — the components of the methods are the classes of mutual calls, listed in the order
  in which methods became reachable, and a method is on a cycle when its component is recursive.
-/

namespace WholeProgram

open Relation (ReflTransGen TransGen)

/-- Components of numbered things are components of the things. -/
theorem StronglyConnected.filterMap {α β : Type} {step : α → α → Prop} {step' : β → β → Prop}
    {nodes : List α} {parts : List (List α)} {f : α → Option β} (h : StronglyConnected step nodes parts)
    (hsome : ∀ u ∈ nodes, (f u).isSome)
    (hstep : ∀ u ∈ nodes, ∀ v ∈ nodes, ∀ a ∈ f u, ∀ b ∈ f v,
      (ReflTransGen step u v ↔ ReflTransGen step' a b)) :
    StronglyConnected step' (nodes.filterMap f) (parts.map (List.filterMap f)) where
  perm := by
    rw [← List.filterMap_flatten]
    exact h.perm.filterMap f
  ne_nil c hc := by
    obtain ⟨d, hd, rfl⟩ := List.mem_map.mp hc
    obtain ⟨u, rest, rfl⟩ := List.exists_cons_of_ne_nil (h.ne_nil d hd)
    obtain ⟨a, ha⟩ := Option.isSome_iff_exists.mp (hsome u (h.mem_nodes hd List.mem_cons_self))
    exact List.ne_nil_of_mem (List.mem_filterMap.mpr ⟨u, List.mem_cons_self, ha⟩)
  together a ha b hb := by
    obtain ⟨u, hu, hua⟩ := List.mem_filterMap.mp ha
    obtain ⟨v, hv, hvb⟩ := List.mem_filterMap.mp hb
    rw [← hstep u hu v hv a hua b hvb, ← hstep v hv u hu b hvb a hua]
    constructor
    · rintro ⟨c, hc, hac, hbc⟩
      obtain ⟨d, hd, rfl⟩ := List.mem_map.mp hc
      obtain ⟨u', hu', hua'⟩ := List.mem_filterMap.mp hac
      obtain ⟨v', hv', hvb'⟩ := List.mem_filterMap.mp hbc
      have hun := h.mem_nodes hd hu'
      have hvn := h.mem_nodes hd hv'
      have huv := (hstep u' hun v' hvn a hua' b hvb').mp (h.reaches hd hu' hv')
      have hvu := (hstep v' hvn u' hun b hvb' a hua').mp (h.reaches hd hv' hu')
      exact ⟨(hstep u hu v hv a hua b hvb).mpr huv, (hstep v hv u hu b hvb a hua).mpr hvu⟩
    · intro hreach
      obtain ⟨d, hd, hud, hvd⟩ := (h.together u hu v hv).mpr hreach
      exact ⟨d.filterMap f, List.mem_map_of_mem hd, List.mem_filterMap.mpr ⟨u, hud, hua⟩,
        List.mem_filterMap.mpr ⟨v, hvd, hvb⟩⟩

namespace CallGraph

variable {σ μ : Type} [BEq σ] [Hashable σ] [BEq μ] [Hashable μ] {g : CallGraph σ μ}

/-- The method calls the other one, and both are reachable. -/
def Calls (g : CallGraph σ μ) (containerOf : σ → μ) (m k : μ) : Prop :=
  m ∈ g.reachable ∧ k ∈ g.reachable ∧ ∃ e ∈ g.edges, containerOf e.site = m ∧ e.callee = k

/-- The method became reachable before the other one. -/
def Precedes (g : CallGraph σ μ) (m k : μ) : Prop :=
  ∃ i j : Nat, i < j ∧ g.reachable[i]? = some m ∧ g.reachable[j]? = some k

variable [LawfulBEq μ]

/-! ## The graph of the methods -/

/-- Each method is found at its place in the list. -/
theorem getElem?_index {ms : Array μ} (hnodup : ms.toList.Nodup) {m : μ} {i : Nat} :
    (ms.zipIdx.foldl (fun acc m => acc.insert m.1 m.2) ({} : Std.HashMap μ Nat))[m]? = some i ↔
      ms[i]? = some m := by
  have hfold : ∀ (l : List μ) (k : Nat) (acc : Std.HashMap μ Nat), l.Nodup →
      (((l.zipIdx k).foldl (fun acc m => acc.insert m.1 m.2) acc)[m]? = some i ↔
        (m, i) ∈ l.zipIdx k ∨ m ∉ l ∧ acc[m]? = some i) := by
    intro l
    induction l with
    | nil => simp
    | cons a l ih =>
      intro k acc hl
      obtain ⟨ha, hl⟩ := List.nodup_cons.mp hl
      rw [List.zipIdx_cons, List.foldl_cons, ih _ _ hl, List.mem_cons, List.mem_cons, not_or,
        Std.HashMap.getElem?_insert, Prod.mk.injEq]
      by_cases hm : a = m
      · subst hm
        have hnot : (a, i) ∉ l.zipIdx (k + 1) := fun h => ha (List.fst_mem_of_mem_zipIdx h)
        simp [hnot, ha, eq_comm]
      · have hm' : ¬ m = a := fun h => hm h.symm
        simp [hm, hm']
  rw [← Array.foldl_toList, Array.toList_zipIdx, hfold _ _ _ hnodup, List.mem_zipIdx_iff_getElem?,
    Array.getElem?_toList]
  simp

omit [BEq σ] [Hashable σ] [LawfulBEq μ] in
/-- An edge of the call graph whose ends have numbers is an edge between these. -/
theorem addCall_spec {index : Std.HashMap μ Nat} {graph : Graph} (containerOf : σ → μ)
    (e : CallEdge σ μ) (hgraph : graph.Full) (hindex : ∀ (m : μ) (i : Nat), index[m]? = some i → i < graph.order) :
    (addCall index containerOf graph e).Full ∧ (addCall index containerOf graph e).order = graph.order ∧
      ∀ u v, (addCall index containerOf graph e).Arc u v ↔
        graph.Arc u v ∨ index[containerOf e.site]? = some u ∧ index[e.callee]? = some v := by
  unfold addCall
  cases hi : index[containerOf e.site]? with
  | none => exact ⟨hgraph, rfl, fun u v => by simp⟩
  | some i =>
    cases hj : index[e.callee]? with
    | none => exact ⟨hgraph, rfl, fun u v => by simp⟩
    | some j =>
      refine ⟨hgraph.addEdge, rfl, fun u v => ?_⟩
      rw [hgraph.arc_addEdge (hindex _ i hi), Option.some.injEq, Option.some.injEq, eq_comm (a := u),
        eq_comm (a := v)]

/-- The graph of the methods has one node for each of them, and an edge for each call. -/
theorem toGraph_spec (hnodup : g.reachable.toList.Nodup) (containerOf : σ → μ) (label : μ → String) :
    (g.toGraph containerOf label).Full ∧ (g.toGraph containerOf label).order = g.reachable.size ∧
      ∀ i j, (g.toGraph containerOf label).Arc i j ↔
        ∃ m k, g.reachable[i]? = some m ∧ g.reachable[j]? = some k ∧ g.Calls containerOf m k := by
  unfold toGraph
  dsimp only
  generalize hindex : g.reachable.zipIdx.foldl (fun acc m => acc.insert m.1 m.2) ({} : Std.HashMap μ Nat) = index
  have hfound : ∀ (m : μ) (i : Nat), index[m]? = some i ↔ g.reachable[i]? = some m :=
    fun m i => hindex ▸ getElem?_index hnodup
  rw [← Array.foldl_toList]
  obtain ⟨hfull, horder, harc⟩ := Graph.Full.foldl
    (fun e u v => index[containerOf e.site]? = some u ∧ index[e.callee]? = some v)
    (fun graph e hgraph horder => by
      obtain ⟨hfull, hsame, harc⟩ := addCall_spec containerOf e hgraph fun m i hi =>
        horder ▸ (Array.getElem?_eq_some_iff.mp ((hfound m i).mp hi)).1
      exact ⟨hfull, hsame.trans horder, harc⟩)
    g.edges.toList (Graph.full_ofLabels (g.reachable.map label)) (Array.size_map ..)
  refine ⟨hfull, horder, fun i j => (harc i j).trans ?_⟩
  rw [or_iff_right (Graph.not_arc_ofLabels _ i j)]
  simp only [hfound, Array.mem_toList_iff]
  constructor
  · rintro ⟨e, he, hi, hj⟩
    exact ⟨_, _, hi, hj, Array.mem_of_getElem? hi, Array.mem_of_getElem? hj, e, he, rfl, rfl⟩
  · rintro ⟨m, k, hi, hj, -, -, e, he, rfl, rfl⟩
    exact ⟨e, he, hi, hj⟩

omit [LawfulBEq μ] in
theorem strays_toGraph (g : CallGraph σ μ) (containerOf : σ → μ) (label : μ → String) :
    (g.toGraph containerOf label).strays = [] := by
  unfold toGraph
  rw [← Array.foldl_toList]
  refine List.foldlRecOn (motive := fun graph : Graph => graph.strays = []) _ _ rfl fun graph hgraph e _ => ?_
  unfold addCall
  split
  · exact hgraph
  · exact hgraph

theorem closed_toGraph (hnodup : g.reachable.toList.Nodup) (containerOf : σ → μ) (label : μ → String) :
    (g.toGraph containerOf label).Closed := by
  obtain ⟨hfull, horder, harc⟩ := toGraph_spec hnodup containerOf label
  refine hfull.closed (fun u v huv => ?_) (strays_toGraph g containerOf label)
  obtain ⟨m, k, hu, hv, -⟩ := (harc u v).mp huv
  rw [horder]
  exact ⟨(Array.getElem?_eq_some_iff.mp hu).1, (Array.getElem?_eq_some_iff.mp hv).1⟩

section

variable {containerOf : σ → μ} {label : μ → String} {i j : Nat} {m k : μ}

omit [LawfulBEq μ] in
/-- A method has one place in the list. -/
theorem place_unique (hnodup : g.reachable.toList.Nodup) (hi : g.reachable[i]? = some m)
    (hj : g.reachable[j]? = some m) : i = j := by
  have hlt : i < g.reachable.toList.length := (Array.getElem?_eq_some_iff.mp hi).1
  refine (List.getElem?_inj hlt hnodup).mp ?_
  rw [Array.getElem?_toList, Array.getElem?_toList, hi, hj]

/-- The paths in the graph of the methods are the chains of calls. -/
theorem reflTransGen_arc_iff (hnodup : g.reachable.toList.Nodup) (hi : g.reachable[i]? = some m)
    (hj : g.reachable[j]? = some k) :
    ReflTransGen (g.toGraph containerOf label).Arc i j ↔ ReflTransGen (g.Calls containerOf) m k := by
  obtain ⟨-, -, harc⟩ := toGraph_spec hnodup containerOf label
  constructor
  · intro h
    induction h generalizing k with
    | refl =>
      obtain rfl := Option.some.inj (hi.symm.trans hj)
      exact .refl
    | tail _ hlast ih =>
      obtain ⟨m', k', hm', hk', hcalls⟩ := (harc _ _).mp hlast
      obtain rfl := Option.some.inj (hk'.symm.trans hj)
      exact (ih hm').tail hcalls
  · intro h
    induction h generalizing j with
    | refl => exact place_unique hnodup hi hj ▸ .refl
    | tail _ hcalls ih =>
      obtain ⟨j', hj'⟩ := Array.mem_iff_getElem?.mp hcalls.1
      exact (ih hj').tail ((harc _ _).mpr ⟨_, _, hj', hj, hcalls⟩)

end

/-! ## Components and cycles -/

omit [LawfulBEq μ] in
/-- The methods of all numbers are the reachable ones. -/
theorem methodsAt_range (g : CallGraph σ μ) : g.methodsAt (List.range g.reachable.size) = g.reachable.toList := by
  have hlist : ∀ l : List μ, (List.range l.length).filterMap (l[·]?) = l := by
    intro l
    induction l with
    | nil => rfl
    | cons a l ih =>
      rw [List.length_cons, List.range_succ_eq_map, List.filterMap_cons, List.filterMap_map]
      exact congrArg (a :: ·) ih
  unfold methodsAt
  simpa using hlist g.reachable.toList

omit [LawfulBEq μ] in
theorem mem_methodsAt {ids : List Nat} {m : μ} : m ∈ g.methodsAt ids ↔ ∃ i ∈ ids, g.reachable[i]? = some m :=
  List.mem_filterMap

section

variable {tarjan strong : Graph.ComponentSearch} {containerOf : σ → μ} {label : μ → String}

/-- The numbers of the components, each in increasing order. -/
theorem componentIds_spec (containerOf : σ → μ) (label : μ → String)
    (htarjan : Graph.Finds tarjan Graph.keys) (hnodup : g.reachable.toList.Nodup) :
    StronglyConnected (g.toGraph containerOf label).Arc (List.range g.reachable.size)
        ((g.toGraph containerOf label).componentsBy tarjan) ∧
      (∀ c ∈ (g.toGraph containerOf label).componentsBy tarjan, c.Pairwise (· < ·)) ∧
      ((g.toGraph containerOf label).componentsBy tarjan).Pairwise fun c d => c.headD 0 < d.headD 0 := by
  obtain ⟨hfull, horder, -⟩ := toGraph_spec hnodup containerOf label
  have hstrong := htarjan _ (closed_toGraph hnodup containerOf label)
  rw [hfull.keys, horder] at hstrong
  exact Graph.componentsBy_spec hstrong List.nodup_range

/-- The components of the methods are the classes of mutual calls. -/
theorem strong_componentsBy (htarjan : Graph.Finds tarjan Graph.keys) (hnodup : g.reachable.toList.Nodup) :
    StronglyConnected (g.Calls containerOf) g.reachable.toList (g.componentsBy tarjan containerOf label) := by
  rw [← methodsAt_range]
  refine (componentIds_spec containerOf label htarjan hnodup).1.filterMap (fun i hi => ?_) fun i _ j _ m hm k hk =>
    reflTransGen_arc_iff hnodup hm hk
  rw [Array.getElem?_eq_getElem (List.mem_range.mp hi)]
  rfl

omit [LawfulBEq μ] in
theorem pairwise_methodsAt {ids : List Nat} (h : ids.Pairwise (· < ·)) : (g.methodsAt ids).Pairwise g.Precedes :=
  List.pairwise_filterMap.mpr (h.imp fun hlt _ hm _ hk => ⟨_, _, hlt, hm, hk⟩)

/-- Components are listed by their first methods. -/
theorem pairwise_componentsBy (htarjan : Graph.Finds tarjan Graph.keys) (hnodup : g.reachable.toList.Nodup) :
    (g.componentsBy tarjan containerOf label).Pairwise
      fun c d => ∀ m ∈ c.head?, ∀ k ∈ d.head?, g.Precedes m k := by
  obtain ⟨hstrong, -, hheads⟩ := componentIds_spec containerOf label htarjan hnodup
  -- the first method of a component is that of its first number
  have hfirst : ∀ ids ∈ (g.toGraph containerOf label).componentsBy tarjan, ∀ m ∈ (g.methodsAt ids).head?,
      g.reachable[ids.headD 0]? = some m := by
    intro ids hids m hm
    obtain ⟨i, rest, rfl⟩ := List.exists_cons_of_ne_nil (hstrong.ne_nil ids hids)
    have hlt : i < g.reachable.size := List.mem_range.mp (hstrong.mem_nodes hids List.mem_cons_self)
    rw [methodsAt, List.filterMap_cons_some (Array.getElem?_eq_getElem hlt)] at hm
    rw [List.headD_cons, Array.getElem?_eq_getElem hlt]
    exact hm
  exact List.pairwise_map.mpr (hheads.imp_of_mem fun {c d} hc hd hlt m hm k hk =>
    ⟨_, _, hlt, hfirst c hc m hm, hfirst d hd k hk⟩)

/-- The cycles of the graph of the methods. -/
theorem cycleIds_spec (containerOf : σ → μ) (label : μ → String)
    (hstrong : Graph.Finds strong fun g => List.range g.order) (hnodup : g.reachable.toList.Nodup) :
    ∃ cycles, (g.toGraph containerOf label).cyclesBy? strong = some cycles ∧
      ∀ l, l ∈ cycles ↔ Graph.Listed (g.toGraph containerOf label).Arc l := by
  obtain ⟨hfull, -, -⟩ := toGraph_spec hnodup containerOf label
  have hclosed := closed_toGraph hnodup containerOf label
  obtain ⟨cycles, hrun, -, hmem, -⟩ := Graph.cyclesBy?_spec hstrong hfull fun u v huv =>
    (hclosed.arc u v huv).imp (hclosed.lt u) (hclosed.lt v)
  exact ⟨cycles, hrun, hmem⟩

end

variable [LawfulBEq σ]

/-- The components of the methods are the classes of mutual calls, in the order in which methods became
reachable and by their first methods; a method is on an elementary cycle when its component is recursive,
and each cycle stays within one component. -/
theorem recursion_agrees {tarjan strong : Graph.ComponentSearch} (htarjan : Graph.Finds tarjan Graph.keys)
    (hstrong : Graph.Finds strong fun g => List.range g.order) (hg : Built g) (containerOf : σ → μ)
    (label : μ → String) :
    StronglyConnected (g.Calls containerOf) g.reachable.toList (g.componentsBy tarjan containerOf label) ∧
    (∀ c ∈ g.componentsBy tarjan containerOf label, c.Pairwise g.Precedes) ∧
    (g.componentsBy tarjan containerOf label).Pairwise
      (fun c d => ∀ m ∈ c.head?, ∀ k ∈ d.head?, g.Precedes m k) ∧
    ∃ cycles, g.cyclesBy? strong containerOf label = some cycles ∧
      (∀ ids ∈ (g.toGraph containerOf label).componentsBy tarjan, ∀ m ∈ g.methodsAt ids,
        (∃ cycle ∈ cycles, m ∈ cycle) ↔ (g.toGraph containerOf label).isRecursive ids = true) ∧
      ∀ cycle ∈ cycles, ∃ c ∈ g.componentsBy tarjan containerOf label, ∀ m ∈ cycle, m ∈ c := by
  have hnodup := hg.nodup_reachable
  have hclosed := closed_toGraph hnodup containerOf label
  obtain ⟨hids, hsorted, -⟩ := componentIds_spec containerOf label htarjan hnodup
  obtain ⟨cycles, hrun, hlisted⟩ := cycleIds_spec containerOf label hstrong hnodup
  have hrange : ∀ u v, (g.toGraph containerOf label).Arc u v → v ∈ List.range g.reachable.size := by
    obtain ⟨-, horder, -⟩ := toGraph_spec hnodup containerOf label
    exact fun u v huv => List.mem_range.mpr (horder ▸ hclosed.lt v (hclosed.arc u v huv).2)
  refine ⟨strong_componentsBy htarjan hnodup, fun c hc => ?_, pairwise_componentsBy htarjan hnodup,
    cycles.map g.methodsAt, by rw [cyclesBy?, hrun]; rfl, fun ids hc m hm => ?_, fun cycle hcycle => ?_⟩
  · obtain ⟨ids, hmem, rfl⟩ := List.mem_map.mp hc
    exact pairwise_methodsAt (hsorted ids hmem)
  · obtain ⟨i, hi, him⟩ := mem_methodsAt.mp hm
    rw [Graph.isRecursive_iff hids List.nodup_range hrange hc hi, ← Graph.exists_listed_iff]
    constructor
    · rintro ⟨cycle, hcycle, hm⟩
      obtain ⟨l, hl, rfl⟩ := List.mem_map.mp hcycle
      obtain ⟨j, hj, hjm⟩ := mem_methodsAt.mp hm
      exact ⟨l, (hlisted l).mp hl, place_unique hnodup him hjm ▸ hj⟩
    · rintro ⟨l, hl, hil⟩
      exact ⟨_, List.mem_map_of_mem ((hlisted l).mpr hl), mem_methodsAt.mpr ⟨i, hil, him⟩⟩
  · obtain ⟨l, hl, rfl⟩ := List.mem_map.mp hcycle
    have hl := (hlisted l).mp hl
    obtain ⟨i, hi⟩ := hl.elementary.exists_mem
    -- each node of the cycle is a number of a method, and reaches the others
    have hnode : ∀ j, j ∈ l → j ∈ List.range g.reachable.size := by
      intro j hj
      obtain ⟨u, -, hlast⟩ := TransGen.tail'_iff.mp (hl.elementary.transGen (hl.mem_cycleOf.mpr hj))
      exact hrange u j hlast
    obtain ⟨ids, hc, hiids⟩ := hids.exists_part (hnode i (hl.mem_cycleOf.mp hi))
    refine ⟨_, List.mem_map_of_mem hc, fun m hm => ?_⟩
    obtain ⟨j, hj, hjm⟩ := mem_methodsAt.mp hm
    have hj' := hl.mem_cycleOf.mpr hj
    exact mem_methodsAt.mpr ⟨j, hids.mem_of_reaches List.nodup_range hc hiids (hnode j hj)
      (hl.elementary.reflTransGen hi hj') (hl.elementary.reflTransGen hj' hi), hjm⟩

/-- Two methods that call each other, a method that calls itself and one that calls into both; one call
site leads to a method that is not reachable, and one is in such a method. -/
def mutualCalls : CallGraph Nat Nat :=
  [(1, 1), (10, 2), (20, 1), (2, 3), (30, 3), (31, 9), (90, 0)].foldl
    (fun g e => (g.addEdge .static e.1 e.2).1)
    ([0, 1, 2, 3].foldl (fun g m => (g.addReachable m).1) {})

theorem recursion_agrees_mutualCalls :
    Built mutualCalls ∧
    (∃ c ∈ mutualCalls.componentsBy Graph.searchNodes (· / 10) fun _ => "", 1 ∈ c ∧ 2 ∈ c) ∧
    ∃ cycles, mutualCalls.cyclesBy? Graph.searchNumbers (· / 10) (fun _ => "") = some cycles ∧
      ∃ cycle ∈ cycles, 1 ∈ cycle := by
  have hbuilt : Built mutualCalls :=
    Built.foldl (fun _ e h => h.edge .static e.1 e.2) _ (Built.foldl (fun _ m h => h.reach m) _ .empty)
  obtain ⟨hstrong, -, -, cycles, hrun, hrecursive, -⟩ := recursion_agrees Graph.searchNodes_finds
    Graph.searchNumbers_finds hbuilt (· / 10) fun _ => ""
  obtain ⟨hcons, hreach, -⟩ := consistent_empty.addReachables (σ := Nat) [0, 1, 2, 3] fun m => m
  obtain ⟨hedges, hsame⟩ := hcons.addEdges [(1, 1), (10, 2), (20, 1), (2, 3), (30, 3), (31, 9), (90, 0)]
    (fun _ => .static) Prod.fst Prod.snd
  have hmem : ∀ m ∈ [0, 1, 2, 3], m ∈ mutualCalls.reachable := fun m hm =>
    hsame ▸ (hreach m).mpr (Or.inr ⟨m, hm, rfl⟩)
  have hforth : mutualCalls.Calls (· / 10) 1 2 := by
    obtain ⟨e, he, hsite, hcallee⟩ := (hedges 10 2).mpr (Or.inr ⟨(10, 2), by decide, rfl, rfl⟩)
    exact ⟨hmem 1 (by decide), hmem 2 (by decide), e, he, by rw [hsite], hcallee⟩
  have hback : mutualCalls.Calls (· / 10) 2 1 := by
    obtain ⟨e, he, hsite, hcallee⟩ := (hedges 20 1).mpr (Or.inr ⟨(20, 1), by decide, rfl, rfl⟩)
    exact ⟨hmem 2 (by decide), hmem 1 (by decide), e, he, by rw [hsite], hcallee⟩
  obtain ⟨c, hc, h1, h2⟩ := (hstrong.together 1 (Array.mem_toList_iff.mpr hforth.1) 2
    (Array.mem_toList_iff.mpr hback.1)).mpr ⟨.single hforth, .single hback⟩
  refine ⟨hbuilt, ⟨c, hc, h1, h2⟩, cycles, hrun, ?_⟩
  obtain ⟨ids, hids, rfl⟩ := List.mem_map.mp hc
  refine (hrecursive ids hids 1 h1).mpr ?_
  -- the component has two methods, so it has two numbers
  match ids, h1, h2 with
  | [i], h1, h2 =>
    obtain ⟨j, hj, hj1⟩ := mem_methodsAt.mp h1
    obtain ⟨k, hk, hk2⟩ := mem_methodsAt.mp h2
    rw [List.mem_singleton.mp hj] at hj1
    rw [List.mem_singleton.mp hk, hj1] at hk2
    exact absurd (Option.some.inj hk2) (by decide)
  | _ :: _ :: _, _, _ => rfl

end CallGraph

end WholeProgram
