import Mathlib.Data.List.Nodup
import WholeProgram.Graph.Basic
import WholeProgram.Proofs.Data.IdSet

/-!
# Edges of graphs

* `Graph.Arc` — the graph has the edge;
* `Graph.ofEdges` — the graph that is built from labels by adding one edge after another, and
  `ofEdges_spec`, which edges it has;
* `arc_subgraph` — a subgraph has the edges between its nodes;
* `Graph.Closed` — the edges of the graph lead from nodes to nodes, as in a subgraph (`closed_subgraph`).
-/

namespace WholeProgram.Graph

variable {g : Graph} {u v : Nat}

/-- The graph has the edge. -/
def Arc (g : Graph) (u v : Nat) : Prop := v ∈ g.succsOf u

theorem hasEdge_iff : g.hasEdge u v = true ↔ g.Arc u v := Iff.rfl

/-! ## Graphs built by adding edges -/

/-- The graph with these labels to which edges were added one after another. -/
def ofEdges (labels : Array String) (edges : List (Int × Int)) : Graph :=
  edges.foldl (fun g e => (g.link e.1 e.2).1) (ofLabels labels)

/-- The nodes of the graph are all numbers below its order. -/
structure Full (g : Graph) : Prop where
  succs : ∀ v < g.order, ∃ s, g.succs[v]? = some (some s)
  size : g.succs.size = g.order
  keys : g.keys = List.range g.order

theorem full_ofLabels (labels : Array String) : (ofLabels labels).Full where
  succs v hv := by
    have hv : v < labels.size := hv
    exact ⟨∅, by simp [ofLabels, Array.getElem?_eq_getElem hv]⟩
  size := by simp [ofLabels, order]
  keys := rfl

theorem Full.node? (h : g.Full) (i : Int) :
    g.node? i = if 0 ≤ i ∧ i.toNat < g.order then some i.toNat else none := by
  cases i with
  | ofNat n =>
    simp only [Graph.node?, Int.ofNat_eq_natCast, Int.natCast_nonneg, Int.toNat_natCast, true_and]
    by_cases hn : n < g.order
    · obtain ⟨s, hs⟩ := h.succs n hn
      simp [hs, hn]
    · have hnone : g.succs[n]? = none := Array.getElem?_eq_none (by rw [h.size]; omega)
      simp [hnone, hn]
  | negSucc n => simp [Graph.node?]

theorem succsOf_addEdge (hu : ∃ s, g.succs[u]? = some (some s)) (x : Nat) :
    (g.addEdge u v).succsOf x = if x = u then (g.succsOf x).insert v else g.succsOf x := by
  obtain ⟨s, hs⟩ := hu
  unfold succsOf addEdge
  rw [Array.getElem?_modify]
  by_cases hx : x = u
  · subst hx
    simp [hs]
  · simp [hx, Ne.symm hx]

theorem Full.addEdge (h : g.Full) : (g.addEdge u v).Full where
  succs x hx := by
    obtain ⟨s, hs⟩ := h.succs x hx
    unfold Graph.addEdge
    rw [Array.getElem?_modify]
    split
    · exact ⟨s.insert v, by rw [hs]; rfl⟩
    · exact ⟨s, hs⟩
  size := (Array.size_modify ..).trans h.size
  keys := h.keys

theorem Full.arc_addEdge (h : g.Full) (hu : u < g.order) {x y : Nat} :
    (g.addEdge u v).Arc x y ↔ g.Arc x y ∨ x = u ∧ y = v := by
  unfold Arc
  rw [succsOf_addEdge (h.succs u hu)]
  by_cases hx : x = u
  · rw [if_pos hx, IdSet.mem_insert]
    tauto
  · rw [if_neg hx]
    tauto

theorem not_arc_ofLabels (labels : Array String) (u v : Nat) : ¬ (ofLabels labels).Arc u v := by
  simp only [Arc, succsOf, ofLabels, Array.getElem?_map]
  cases labels[u]? <;> simp

/-- Steps that add edges to a full graph, one for each member of a list. -/
theorem Full.foldl {ε : Type} {n : Nat} {step : Graph → ε → Graph} (adds : ε → Nat → Nat → Prop)
    (hstep : ∀ (g : Graph) (e : ε), g.Full → g.order = n → (step g e).Full ∧ (step g e).order = n ∧
      ∀ u v, (step g e).Arc u v ↔ g.Arc u v ∨ adds e u v)
    (es : List ε) (h : g.Full) (hn : g.order = n) :
    (es.foldl step g).Full ∧ (es.foldl step g).order = n ∧
      ∀ u v, (es.foldl step g).Arc u v ↔ g.Arc u v ∨ ∃ e ∈ es, adds e u v := by
  induction es generalizing g with
  | nil => exact ⟨h, hn, fun u v => by simp⟩
  | cons e es ih =>
    obtain ⟨hfull, horder, harc⟩ := hstep g e h hn
    obtain ⟨hfull', horder', harc'⟩ := ih hfull horder
    refine ⟨hfull', horder', fun u v => ?_⟩
    rw [List.foldl_cons, harc', harc, or_assoc, List.exists_mem_cons_iff]

theorem link_spec (h : g.Full) (i j : Int) : (g.link i j).1.Full ∧ (g.link i j).1.order = g.order ∧
    ∀ u v, (g.link i j).1.Arc u v ↔
      g.Arc u v ∨ u < g.order ∧ v < g.order ∧ (i, j) = ((u : Int), (v : Int)) := by
  unfold link
  rw [h.node?]
  by_cases hi : 0 ≤ i ∧ i.toNat < g.order
  · rw [if_pos hi]
    dsimp only
    by_cases hj : j.toNat < g.order ∧ 0 ≤ j
    · rw [if_pos hj]
      refine ⟨h.addEdge, rfl, fun u v => (h.arc_addEdge hi.2).trans (or_congr_right ?_)⟩
      rw [Prod.mk.injEq]
      omega
    · rw [if_neg hj]
      refine ⟨⟨h.succs, h.size, h.keys⟩, rfl, fun u v => ⟨Or.inl, fun hor => hor.elim id ?_⟩⟩
      rintro ⟨-, hv, heq⟩
      obtain ⟨rfl, rfl⟩ := Prod.mk.inj heq
      exact absurd ⟨by simpa using hv, Int.natCast_nonneg v⟩ hj
  · rw [if_neg hi]
    refine ⟨h, rfl, fun u v => ⟨Or.inl, fun hor => hor.elim id ?_⟩⟩
    rintro ⟨hu, -, heq⟩
    obtain ⟨rfl, rfl⟩ := Prod.mk.inj heq
    exact absurd ⟨Int.natCast_nonneg u, by simpa using hu⟩ hi

/-- The edges added to the graph are those whose ends are nodes. -/
theorem ofEdges_spec (labels : Array String) (edges : List (Int × Int)) :
    (ofEdges labels edges).Full ∧ (ofEdges labels edges).order = labels.size ∧
      ∀ u v, (ofEdges labels edges).Arc u v ↔
        u < labels.size ∧ v < labels.size ∧ ((u : Int), (v : Int)) ∈ edges := by
  obtain ⟨hfull, horder, harc⟩ := Full.foldl (n := labels.size)
    (fun e u v => u < labels.size ∧ v < labels.size ∧ e = ((u : Int), (v : Int)))
    (fun g e hg hn => hn ▸ link_spec hg e.1 e.2) edges (full_ofLabels labels) rfl
  refine ⟨hfull, horder, fun u v => (harc u v).trans ?_⟩
  rw [or_iff_right (not_arc_ofLabels labels u v)]
  constructor
  · rintro ⟨e, he, hu, hv, rfl⟩
    exact ⟨hu, hv, he⟩
  · exact fun ⟨hu, hv, he⟩ => ⟨_, he, hu, hv, rfl⟩

/-! ## Subgraphs -/

theorem succsOf_subgraph (g : Graph) (wanted : List Nat) (u : Nat) :
    (g.subgraph wanted).succsOf u =
      if u < g.order ∧ u ∈ wanted then (g.succsOf u).inter (IdSet.ofList wanted) else ∅ := by
  show (((g.subgraph wanted).succs[u]?).join).getD ∅ = _
  unfold subgraph
  dsimp only
  rw [Array.getElem?_map, Array.getElem?_range]
  by_cases hu : u < g.order
  · by_cases hw : u ∈ wanted
    · have hc : (IdSet.ofList wanted).contains u = true := IdSet.mem_ofList.mpr hw
      simp [hu, hw, hc]
    · have hc : (IdSet.ofList wanted).contains u = false :=
        Bool.eq_false_iff.mpr fun h => hw (IdSet.mem_ofList.mp h)
      simp [hu, hw, hc]
  · simp [hu]

/-- A subgraph has the edges between its nodes. -/
theorem arc_subgraph {wanted : List Nat} (hwanted : ∀ v ∈ wanted, v < g.order) :
    (g.subgraph wanted).Arc u v ↔ g.Arc u v ∧ u ∈ wanted ∧ v ∈ wanted := by
  unfold Arc
  rw [succsOf_subgraph]
  by_cases hu : u ∈ wanted
  · rw [if_pos ⟨hwanted u hu, hu⟩, IdSet.mem_inter, IdSet.mem_ofList]
    tauto
  · rw [if_neg fun h => hu h.2]
    simp [hu]

/-- The edges of the graph lead from nodes to nodes, each of which is listed once. -/
structure Closed (g : Graph) : Prop where
  arc : ∀ u v, g.Arc u v → u ∈ g.keys ∧ v ∈ g.keys
  lt : ∀ v ∈ g.keys, v < g.order
  node : ∀ v ∈ g.keys, (g.node? v).isSome = true
  nodup : g.keys.Nodup
  strays : g.strays = []

theorem closed_subgraph {wanted : List Nat} (hwanted : ∀ v ∈ wanted, v < g.order)
    (hnodup : wanted.Nodup) : (g.subgraph wanted).Closed where
  arc u v h := ((arc_subgraph hwanted).mp h).2
  lt := hwanted
  node v hv := by
    have hc : (IdSet.ofList wanted).contains v = true := IdSet.mem_ofList.mpr hv
    have hlt : v < g.order := hwanted v hv
    simp only [Graph.node?, subgraph, Array.getElem?_map, Array.getElem?_range, hlt, if_true,
      Option.map_some, hc]
    rfl
  nodup := hnodup
  strays := rfl

theorem Full.closed (h : g.Full) (harc : ∀ u v, g.Arc u v → u < g.order ∧ v < g.order)
    (hstrays : g.strays = []) : g.Closed where
  arc u v huv := by
    rw [h.keys, List.mem_range, List.mem_range]
    exact harc u v huv
  lt v hv := List.mem_range.mp (h.keys ▸ hv)
  node v hv := by
    have hlt : v < g.order := List.mem_range.mp (h.keys ▸ hv)
    rw [h.node?, if_pos ⟨Int.natCast_nonneg v, hlt⟩]
    rfl
  nodup := h.keys ▸ List.nodup_range
  strays := hstrays

end WholeProgram.Graph
