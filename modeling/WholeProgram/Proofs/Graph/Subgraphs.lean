import WholeProgram.Proofs.Graph.Cycles

/-!
# Rounds over subgraphs

A subgraph lists its nodes in the order in which they were asked for. Where all were asked for in
increasing order, the nodes of a graph are listed in increasing order, and each round of the enumeration of
cycles gets past its least node. In another order a round may be left with the nodes that it began with.

* `Obtained` — the graphs that can be made of labels, edges and subgraphs;
* `Left` — the nodes that are left after some rounds;
* `cycles_end_of_increasing` — the rounds of such graphs advance, and the enumeration ends.
-/

namespace WholeProgram.Graph

open Relation (TransGen)

variable {g : Graph} {listed : List Nat → Prop} {search : ComponentSearch} {nodes left : List Nat} {u v : Nat}

/-! ## Graphs that are made step by step -/

/-- The graphs that are made of labels by adding edges and taking subgraphs, where the lists of nodes that
subgraphs are taken of have a property. -/
inductive Obtained (listed : List Nat → Prop) : Graph → Prop where
  | labels (labels : Array String) : Obtained listed (ofLabels labels)
  | edge {g : Graph} (h : Obtained listed g) (u v : Int) : Obtained listed (g.link u v).1
  | subgraph {g : Graph} (h : Obtained listed g) {wanted : List Nat} (nodes : ∀ v ∈ wanted, v ∈ g.keys)
    (order : listed wanted) : Obtained listed (g.subgraph wanted)

theorem obtained_ofEdges (listed : List Nat → Prop) (labels : Array String) (edges : List (Int × Int)) :
    Obtained listed (ofEdges labels edges) := by
  suffices h : ∀ g, Obtained listed g → Obtained listed (edges.foldl (fun g e => (g.link e.1 e.2).1) g) from
    h _ (.labels labels)
  induction edges with
  | nil => exact fun g h => h
  | cons e edges ih => exact fun g h => ih _ (.edge h e.1 e.2)

/-- An edge changes neither the nodes nor their number. -/
theorem link_nodes (g : Graph) (u v : Int) : (g.link u v).1.keys = g.keys ∧ (g.link u v).1.order = g.order ∧
    ∀ x : Nat, ((g.link u v).1.succs[x]?.join).isSome = (g.succs[x]?.join).isSome := by
  unfold link
  split
  · split
    · refine ⟨rfl, rfl, fun x => ?_⟩
      unfold addEdge
      rw [Array.getElem?_modify]
      split
      · cases g.succs[x]? with
        | none => rfl
        | some s => cases s <;> rfl
      · rfl
    · exact ⟨rfl, rfl, fun _ => rfl⟩
  · exact ⟨rfl, rfl, fun _ => rfl⟩

/-- The nodes are listed, and are numbers below the order. -/
theorem Obtained.keys_spec (h : Obtained listed g) :
    (∀ v ∈ g.keys, v < g.order) ∧ ∀ x : Nat, (g.succs[x]?.join).isSome = true → x ∈ g.keys := by
  induction h with
  | labels labels =>
    refine ⟨fun v hv => List.mem_range.mp hv, fun x hx => List.mem_range.mpr ?_⟩
    by_contra hlarge
    simp [ofLabels, Array.getElem?_eq_none (Nat.le_of_not_lt hlarge)] at hx
  | edge h u v ih =>
    obtain ⟨hkeys, horder, hnode⟩ := link_nodes _ u v
    rw [hkeys, horder]
    exact ⟨ih.1, fun x hx => ih.2 x (hnode x ▸ hx)⟩
  | @subgraph g h wanted hwanted _ ih =>
    refine ⟨fun v hv => ih.1 v (hwanted v hv), fun x hx => ?_⟩
    by_contra hout
    have hc : (IdSet.ofList wanted).contains x = false :=
      Bool.eq_false_iff.mpr fun h => hout (IdSet.mem_ofList.mp h)
    by_cases hlt : x < g.order <;> simp [Graph.subgraph, hlt, hc] at hx

/-- Edges start from nodes. -/
theorem Obtained.arc (h : Obtained listed g) (harc : g.Arc u v) : u ∈ g.keys := by
  refine h.keys_spec.2 u ?_
  by_contra hnone
  rw [Option.not_isSome_iff_eq_none] at hnone
  rw [Arc, succsOf, hnone] at harc
  exact IdSet.not_mem_empty v harc

/-- The nodes are listed in increasing order if the nodes of all subgraphs are. -/
theorem Obtained.keys_increasing (h : Obtained (List.Pairwise (· < ·)) g) : g.keys.Pairwise (· < ·) := by
  induction h with
  | labels labels => exact List.pairwise_lt_range
  | edge h u v ih => rwa [(link_nodes _ u v).1]
  | subgraph h hwanted hsorted => exact hsorted

/-- The cycles of a graph are those of its nodes. -/
theorem Obtained.listed_keys (h : Obtained listed g) {l : List Nat} :
    Listed (g.subgraph g.keys).Arc l ↔ Listed g.Arc l := by
  rw [listed_subgraph h.keys_spec.1]
  refine and_iff_left_of_imp fun hl v hv => ?_
  obtain ⟨w, harc, -⟩ := TransGen.head'_iff.mp (hl.elementary.transGen hv)
  exact h.arc harc

/-! ## Rounds -/

/-- The node that a round starts from: the least one of the nodes that are left which lies on a cycle. -/
def start? (search : ComponentSearch) (g : Graph) (left : List Nat) : Option Nat :=
  (g.subgraph left).leastOnCycle (search (g.subgraph left))

/-- The nodes that are left after some rounds. -/
inductive Left (search : ComponentSearch) (g : Graph) (nodes : List Nat) : List Nat → Prop where
  | all : Left search g nodes nodes
  | round {left : List Nat} {least : Nat} (h : Left search g nodes left) (start : start? search g left = some least) :
    Left search g nodes (left.dropWhile (· ≤ least))

theorem Left.sublist (h : Left search g nodes left) : left.Sublist nodes := by
  induction h with
  | all => exact .refl _
  | round h _ ih => exact (List.dropWhile_sublist _).trans ih

/-- A round over nodes in increasing order gets past its least node. -/
theorem start?_mem (hsearch : Finds search fun g => List.range g.order) (hlt : ∀ v ∈ left, v < g.order)
    (hsorted : left.Pairwise (· < ·)) {least : Nat} (hstart : start? search g left = some least) : least ∈ left := by
  have hg : (g.subgraph left).Closed := closed_subgraph hlt (hsorted.imp Nat.ne_of_lt)
  obtain ⟨w, harc, -⟩ := TransGen.head'_iff.mp ((leastOnCycle_spec hg (hsearch _ hg)).1 least hstart)
  exact (hg.arc least w harc).1

/-- Where subgraphs are taken of nodes in increasing order, the nodes of a graph are listed in increasing order,
each round of the enumeration of cycles strictly gets past its least node, and the enumeration ends. -/
theorem cycles_end_of_increasing {strong : ComponentSearch} (hstrong : Finds strong fun g => List.range g.order)
    (h : Obtained (List.Pairwise (· < ·)) g) :
    g.keys.Pairwise (· < ·) ∧
    (∀ left least, Left strong g g.keys left → start? strong g left = some least →
      least ∈ left ∧ (left.dropWhile (· ≤ least)).length < left.length ∧
      ∀ v, v ∈ left.dropWhile (· ≤ least) ↔ v ∈ left ∧ least < v) ∧
    ∃ cs, g.cyclesBy? strong = some cs ∧ cs.Nodup ∧ ∀ l, l ∈ cs ↔ Listed g.Arc l := by
  have hsorted := h.keys_increasing
  refine ⟨hsorted, fun left least hleft hstart => ?_, ?_⟩
  · have hleftSorted := hsorted.sublist hleft.sublist
    have hmem := start?_mem hstrong (fun v hv => h.keys_spec.1 v (hleft.sublist.subset hv)) hleftSorted hstart
    exact ⟨hmem, length_dropWhile_le_lt hleftSorted hmem, fun v => mem_dropWhile_le hleftSorted⟩
  · obtain ⟨r, cs, hrun, hfound, hcs⟩ := cyclesOver_spec hstrong g.keys h.keys_spec.1 hsorted #[]
    refine ⟨cs, ?_, hcs.nodup, fun l => (hcs.mem l).trans h.listed_keys⟩
    rw [cyclesBy?, hrun, Option.map_some, hfound]
    rfl

/-- A subgraph of a ring gets an edge, and a subgraph is taken again. -/
def shrunk : Graph :=
  (((ofEdges #["a", "b", "c", "d"] [(0, 1), (1, 2), (2, 0), (2, 3)]).subgraph [0, 1, 2]).link 1 0).1.subgraph [0, 1]

theorem cycles_end_of_increasing_shrunk : Obtained (List.Pairwise (· < ·)) shrunk ∧ shrunk.keys = [0, 1] ∧
    Finds searchNumbers (fun g => List.range g.order) ∧
    (∃ cs, shrunk.cyclesBy? searchNumbers = some cs ∧ [0, 1, 0] ∈ cs) ∧
    ∀ left least, Left searchNumbers shrunk [0, 1] left → start? searchNumbers shrunk left = some least →
      least ∈ left := by
  have made : Obtained (List.Pairwise (· < ·)) shrunk :=
    .subgraph (.edge (.subgraph (obtained_ofEdges _ _ _) (by decide +kernel) (by decide)) 1 0)
      (by decide +kernel) (by decide)
  obtain ⟨-, rounds, cs, hrun, -, hmem⟩ := cycles_end_of_increasing searchNumbers_finds made
  refine ⟨made, rfl, searchNumbers_finds, ⟨cs, hrun, (hmem _).mpr ⟨0, [1], rfl, by decide, ?_⟩⟩,
    fun left least hleft hstart => (rounds left least hleft hstart).1⟩
  exact elementary_cons_iff.mpr ⟨by decide, by simp [← hasEdge_iff]; decide +kernel⟩

/-- The round that the enumeration begins with. -/
theorem cyclesOver_round (found : Array (List Nat)) {least : Nat} (nonempty : nodes ≠ [])
    (hstart : start? search g nodes = some least) :
    g.cyclesOver search nodes found = ((g.subgraph nodes).walk least [] least { found }).bind fun r =>
      if (nodes.dropWhile (· ≤ least)).length < nodes.length then
        g.cyclesOver search (nodes.dropWhile (· ≤ least)) r.2.found
      else none := by
  cases nodes with
  | nil => exact absurd rfl nonempty
  | cons k keys =>
    rw [start?] at hstart
    rw [cyclesOver, hstart]
    simp

/-- Two nodes on a cycle, the greater one first. -/
def backward : Graph := (ofEdges #["a", "b"] [(0, 1), (1, 0)]).subgraph [1, 0]

theorem start?_backward : start? searchNumbers backward [1, 0] = some 0 := by
  have hg : (backward.subgraph [1, 0]).Closed := closed_subgraph (by decide +kernel) (by decide)
  have hloop : TransGen (backward.subgraph [1, 0]).Arc 0 0 :=
    .tail (b := 1) (.single (hasEdge_iff.mp (by decide +kernel))) (hasEdge_iff.mp (by decide +kernel))
  obtain ⟨m, hm, hle⟩ := (leastOnCycle_spec hg (searchNumbers_finds _ hg)).2 0 hloop
  obtain rfl := Nat.le_zero.mp hle
  exact hm

/-- The nodes of a subgraph are not listed in increasing order when they are asked for in another one. The round
from the lesser of the two is left with both again, and the enumeration does not end. -/
theorem cycles_repeat_of_backward : Obtained (fun _ => True) backward ∧ backward.keys = [1, 0] ∧
    start? searchNumbers backward [1, 0] = some 0 ∧ [1, 0].dropWhile (· ≤ 0) = [1, 0] ∧
    backward.cycles? = none := by
  refine ⟨.subgraph (obtained_ofEdges _ _ _) (by decide +kernel) trivial, rfl, start?_backward, rfl, ?_⟩
  have hround := cyclesOver_round #[] (by simp) start?_backward
  have hstuck : ¬ ([1, 0].dropWhile (· ≤ 0)).length < [1, 0].length := by decide
  simp only [hstuck, if_false, Option.bind_fun_none] at hround
  exact congrArg (Option.map Array.toList) hround

end WholeProgram.Graph
