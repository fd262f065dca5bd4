import Mathlib.Data.List.Flatten
import Mathlib.Data.List.Pairwise
import Mathlib.Data.List.Perm.Basic
import Mathlib.Logic.Relation
import WholeProgram.Graph.Cycles
import WholeProgram.Proofs.Data.IdSet
import WholeProgram.Proofs.Graph.Arcs

/-!
# Components are classes of mutual reachability

* `StronglyConnected` — what the strongly connected components of a relation are;
* `mem_row_reachTable` — the table of a closed graph holds what each number reaches;
* `strong_classes` — so its classes are components, and the searches of the library find them
  (`searchNumbers_finds`, `searchNodes_finds`);
* `componentsBy_spec` — whatever a search finds is listed in increasing order.
-/

namespace WholeProgram

open Relation (ReflTransGen)

/-- The lists are the strongly connected components of some nodes: each node is in one of them, once,
and two nodes are together when each reaches the other. -/
structure StronglyConnected {α : Type} (step : α → α → Prop) (nodes : List α) (parts : List (List α)) :
    Prop where
  perm : parts.flatten.Perm nodes
  ne_nil : ∀ c ∈ parts, c ≠ []
  together : ∀ u ∈ nodes, ∀ v ∈ nodes,
    (∃ c ∈ parts, u ∈ c ∧ v ∈ c) ↔ ReflTransGen step u v ∧ ReflTransGen step v u

namespace StronglyConnected

variable {α : Type} {step : α → α → Prop} {nodes : List α} {parts parts' : List (List α)} {c d : List α}
  {u v : α}

theorem mem_nodes (h : StronglyConnected step nodes parts) (hc : c ∈ parts) (hv : v ∈ c) : v ∈ nodes :=
  h.perm.mem_iff.mp (List.mem_flatten.mpr ⟨c, hc, hv⟩)

theorem exists_part (h : StronglyConnected step nodes parts) (hv : v ∈ nodes) : ∃ c ∈ parts, v ∈ c :=
  List.mem_flatten.mp (h.perm.mem_iff.mpr hv)

/-- In a component each node reaches all others. -/
theorem reaches (h : StronglyConnected step nodes parts) (hc : c ∈ parts) (hu : u ∈ c) (hv : v ∈ c) :
    ReflTransGen step u v :=
  ((h.together u (h.mem_nodes hc hu) v (h.mem_nodes hc hv)).mp ⟨c, hc, hu, hv⟩).1

theorem nodup (h : StronglyConnected step nodes parts) (hnodes : nodes.Nodup) (hc : c ∈ parts) :
    c.Nodup :=
  (List.nodup_flatten.mp (h.perm.nodup_iff.mpr hnodes)).1 c hc

/-- No node is in two components. -/
theorem disjoint (h : StronglyConnected step nodes parts) (hnodes : nodes.Nodup) :
    parts.Pairwise List.Disjoint :=
  (List.nodup_flatten.mp (h.perm.nodup_iff.mpr hnodes)).2

/-- The component of a node has all that reach it and are reached from it. -/
theorem mem_of_reaches (h : StronglyConnected step nodes parts) (hnodes : nodes.Nodup) (hc : c ∈ parts)
    (hu : u ∈ c) (hv : v ∈ nodes) (huv : ReflTransGen step u v) (hvu : ReflTransGen step v u) : v ∈ c := by
  obtain ⟨d, hd, hud, hvd⟩ := (h.together u (h.mem_nodes hc hu) v hv).mpr ⟨huv, hvu⟩
  -- the node is in one component only
  have heq : c = d := by
    by_contra hne
    have hsymm : Std.Symm (@List.Disjoint α) := ⟨fun _ _ => List.disjoint_symm⟩
    exact (h.disjoint hnodes).forall hc hd hne hu hud
  rwa [heq]

/-- The order of the components does not matter, nor the order of the nodes in them. -/
theorem rearrange (h : StronglyConnected step nodes parts) {f : List α → List α} (hf : ∀ c, (f c).Perm c)
    (hp : parts'.Perm (parts.map f)) : StronglyConnected step nodes parts' where
  perm :=
    calc parts'.flatten.Perm (parts.map f).flatten := hp.flatten
      _ = parts.flatMap f := List.flatMap_def.symm
      _ |>.Perm (parts.flatMap id) := List.Perm.flatMap_left parts fun c _ => hf c
      _ = parts.flatten := List.flatMap_id
      _ |>.Perm nodes := h.perm
  ne_nil c hc := by
    obtain ⟨d, hd, rfl⟩ := List.mem_map.mp (hp.mem_iff.mp hc)
    exact fun hnil => h.ne_nil d hd (List.perm_nil.mp (hnil ▸ (hf d).symm))
  together u hu v hv := by
    rw [← h.together u hu v hv]
    constructor
    · rintro ⟨c, hc, huc, hvc⟩
      obtain ⟨d, hd, rfl⟩ := List.mem_map.mp (hp.mem_iff.mp hc)
      exact ⟨d, hd, (hf d).mem_iff.mp huc, (hf d).mem_iff.mp hvc⟩
    · rintro ⟨d, hd, hud, hvd⟩
      exact ⟨f d, hp.mem_iff.mpr (List.mem_map_of_mem hd), (hf d).mem_iff.mpr hud, (hf d).mem_iff.mpr hvd⟩

end StronglyConnected

namespace Graph

variable {g : Graph} {table : Array IdSet} {k u v w : Nat}

/-! ## The table of what each number reaches -/

/-- What a number reaches, by a table. -/
def row (table : Array IdSet) (v : Nat) : IdSet := table.getD v ∅

/-- Passing through `k` adds what `k` reaches to the rows that have `k`. -/
theorem mem_row_passThrough :
    w ∈ row (passThrough table k) v ↔ w ∈ row table v ∨ k ∈ row table v ∧ w ∈ row table k := by
  unfold row passThrough
  simp only [Array.getD_eq_getD_getElem?, Array.getElem?_map]
  cases table[v]? with
  | none => simp
  | some s =>
    simp only [Option.map_some, Option.getD_some]
    by_cases hk : k ∈ s
    · have hc : s.contains k = true := hk
      simp only [hc, if_true, IdSet.mem_union, hk, true_and]
    · have hc : s.contains k = false := Bool.eq_false_iff.mpr hk
      simp only [hc, Bool.false_eq_true, if_false, hk, false_and, or_false]

/-- Passing through nodes only adds to the rows. -/
theorem mem_row_foldl {ks : List Nat} (h : w ∈ row table v) : w ∈ row (ks.foldl passThrough table) v := by
  induction ks generalizing table with
  | nil => exact h
  | cons k ks ih => exact ih (mem_row_passThrough.mpr (Or.inl h))

/-- What is added to the rows is reached. -/
theorem reaches_of_mem_foldl {ks : List Nat} {r : Nat → Nat → Prop}
    (h : ∀ v w, w ∈ row table v → ReflTransGen r v w) :
    ∀ v w, w ∈ row (ks.foldl passThrough table) v → ReflTransGen r v w := by
  induction ks generalizing table with
  | nil => exact h
  | cons k ks ih =>
    refine ih fun v w hw => ?_
    rcases mem_row_passThrough.mp hw with hw | ⟨hk, hw⟩
    · exact h v w hw
    · exact (h v k hk).trans (h k w hw)

/-- A row that has `k` has all that `k` has. -/
def Passed (table : Array IdSet) (k : Nat) : Prop :=
  ∀ v w, k ∈ row table v → w ∈ row table k → w ∈ row table v

/-- What was passed stays passed: a row that comes to have `k` by passing through `j` also gets what
`k` has, because the row of `j` had it. -/
theorem Passed.passThrough {j : Nat} (h : Passed table k) : Passed (passThrough table j) k := by
  intro v w hk hw
  rw [mem_row_passThrough] at hk hw ⊢
  rcases hk with hk | ⟨hj, hk⟩
  · rcases hw with hw | ⟨hj, hw⟩
    · exact Or.inl (h v w hk hw)
    · exact Or.inr ⟨h v j hk hj, hw⟩
  · rcases hw with hw | ⟨_, hw⟩
    · exact Or.inr ⟨hj, h j w hk hw⟩
    · exact Or.inr ⟨hj, hw⟩

theorem passed_passThrough : Passed (Graph.passThrough table k) k := by
  intro v w hk hw
  rw [mem_row_passThrough] at hk hw ⊢
  have hk : k ∈ row table v := hk.elim id And.left
  have hw : w ∈ row table k := hw.elim id And.right
  exact Or.inr ⟨hk, hw⟩

theorem passed_foldl {ks : List Nat} (hk : k ∈ ks ∨ Passed table k) : Passed (ks.foldl passThrough table) k := by
  induction ks generalizing table with
  | nil => exact hk.resolve_left List.not_mem_nil
  | cons j ks ih =>
    refine ih ?_
    rcases hk with hk | hk
    · rcases List.mem_cons.mp hk with rfl | hk
      · exact Or.inr passed_passThrough
      · exact Or.inl hk
    · exact Or.inr hk.passThrough

/-- The table of a closed graph holds what each number reaches. -/
theorem mem_row_reachTable (hg : g.Closed) :
    w ∈ row g.reachTable v ↔ v < g.order ∧ ReflTransGen g.Arc v w := by
  unfold reachTable
  have hdirect : ∀ v w, w ∈ row ((Array.range g.order).map fun v => (g.succsOf v).insert v) v ↔
      v < g.order ∧ (w = v ∨ g.Arc v w) := by
    intro v w
    unfold row
    rw [Array.getD_eq_getD_getElem?, Array.getElem?_map, Array.getElem?_range]
    by_cases hv : v < g.order
    · simp [hv, Arc]
    · simp [hv]
  constructor
  · intro hw
    refine ⟨?_, reaches_of_mem_foldl (fun v w h => ?_) v w hw⟩
    · -- a row outside the table stays empty
      by_contra hv
      have hnone : ∀ (ks : List Nat) (t : Array IdSet), (∀ w, ¬ w ∈ row t v) →
          ∀ w, ¬ w ∈ row (ks.foldl passThrough t) v := by
        intro ks
        induction ks with
        | nil => exact fun _ h => h
        | cons k ks ih =>
          refine fun t h => ih _ fun w hw => ?_
          rcases mem_row_passThrough.mp hw with hw | ⟨hk, -⟩
          · exact h w hw
          · exact h k hk
      exact hnone _ _ (fun w h => hv ((hdirect v w).mp h).1) w hw
    · rcases ((hdirect v w).mp h).2 with rfl | harc
      · exact .refl
      · exact .single harc
  · rintro ⟨hv, hreach⟩
    induction hreach with
    | refl => exact mem_row_foldl ((hdirect v v).mpr ⟨hv, Or.inl rfl⟩)
    | @tail u w _ harc ih =>
      have hu : u ∈ g.keys := (hg.arc u w harc).1
      have hw := (hdirect u w).mpr ⟨hg.lt u hu, Or.inr harc⟩
      exact passed_foldl (Or.inl hu) v w ih (mem_row_foldl hw)

theorem linked_iff (hg : g.Closed) (hu : u < g.order) (hv : v < g.order) :
    linked g.reachTable u v = true ↔ ReflTransGen g.Arc u v ∧ ReflTransGen g.Arc v u := by
  have huv := mem_row_reachTable (v := u) (w := v) hg
  have hvu := mem_row_reachTable (v := v) (w := u) hg
  unfold linked
  rw [Bool.and_eq_true]
  exact ⟨fun h => ⟨(huv.mp h.1).2, (hvu.mp h.2).2⟩, fun h => ⟨huv.mpr ⟨hu, h.1⟩, hvu.mpr ⟨hv, h.2⟩⟩⟩

/-! ## Classes -/

section

variable {nodes c : List Nat}

theorem mem_membersOf (hg : g.Closed) (hlt : ∀ v ∈ nodes, v < g.order) (hu : u ∈ nodes) :
    v ∈ membersOf g.reachTable nodes u ↔
      v ∈ nodes ∧ ReflTransGen g.Arc u v ∧ ReflTransGen g.Arc v u := by
  unfold membersOf
  rw [List.mem_filter]
  exact and_congr_right fun hv => linked_iff hg (hlt u hu) (hlt v hv)

theorem self_mem_membersOf (hg : g.Closed) (hlt : ∀ v ∈ nodes, v < g.order) (hu : u ∈ nodes) :
    u ∈ membersOf g.reachTable nodes u :=
  (mem_membersOf hg hlt hu).mpr ⟨hu, .refl, .refl⟩

/-- All members of a class have the same class. -/
theorem membersOf_eq (hg : g.Closed) (hlt : ∀ v ∈ nodes, v < g.order) (hu : u ∈ nodes)
    (hv : v ∈ membersOf g.reachTable nodes u) :
    membersOf g.reachTable nodes v = membersOf g.reachTable nodes u := by
  obtain ⟨hvn, huv, hvu⟩ := (mem_membersOf hg hlt hu).mp hv
  refine List.filter_congr fun w hw => Bool.eq_iff_iff.mpr ?_
  rw [linked_iff hg (hlt v hvn) (hlt w hw), linked_iff hg (hlt u hu) (hlt w hw)]
  exact ⟨fun h => ⟨huv.trans h.1, h.2.trans hvu⟩, fun h => ⟨hvu.trans h.1, h.2.trans huv⟩⟩

theorem mem_classes : c ∈ g.classes nodes ↔
    ∃ v ∈ nodes, (membersOf g.reachTable nodes v).head? = some v ∧ membersOf g.reachTable nodes v = c := by
  simp [classes, and_assoc]

/-- The class of a number is listed, for its first member. -/
theorem membersOf_mem_classes (hg : g.Closed) (hlt : ∀ v ∈ nodes, v < g.order) (hu : u ∈ nodes) :
    membersOf g.reachTable nodes u ∈ g.classes nodes := by
  have hne : membersOf g.reachTable nodes u ≠ [] := List.ne_nil_of_mem (self_mem_membersOf hg hlt hu)
  have hfirst := List.head_mem hne
  have hsame := membersOf_eq hg hlt hu hfirst
  refine mem_classes.mpr ⟨_, ((mem_membersOf hg hlt hu).mp hfirst).1, ?_, hsame⟩
  rw [hsame, List.head?_eq_some_head hne]

theorem pairwise_disjoint_classes (hg : g.Closed) (hlt : ∀ v ∈ nodes, v < g.order)
    (hnodup : nodes.Nodup) : (g.classes nodes).Pairwise List.Disjoint := by
  unfold classes
  refine List.pairwise_map.mpr ((hnodup.filter _).imp_of_mem fun {u v} hu hv hne x hxu hxv => ?_)
  simp only [List.mem_filter, decide_eq_true_eq] at hu hv
  have hsame : membersOf g.reachTable nodes u = membersOf g.reachTable nodes v :=
    (membersOf_eq hg hlt hu.1 hxu).symm.trans (membersOf_eq hg hlt hv.1 hxv)
  exact hne (Option.some.inj (hu.2.symm.trans (hsame ▸ hv.2)))

/-- The classes of numbers below the order are their components. -/
theorem strong_classes (hg : g.Closed) (hlt : ∀ v ∈ nodes, v < g.order) (hnodup : nodes.Nodup) :
    StronglyConnected g.Arc nodes (g.classes nodes) where
  perm := by
    have hflat : (g.classes nodes).flatten.Nodup := by
      refine List.nodup_flatten.mpr ⟨fun c hc => ?_, pairwise_disjoint_classes hg hlt hnodup⟩
      obtain ⟨v, -, -, rfl⟩ := mem_classes.mp hc
      exact hnodup.filter _
    refine (List.perm_ext_iff_of_nodup hflat hnodup).mpr fun u => List.mem_flatten.trans ⟨?_, fun hu => ?_⟩
    · rintro ⟨c, hc, hu⟩
      obtain ⟨v, hv, -, rfl⟩ := mem_classes.mp hc
      exact ((mem_membersOf hg hlt hv).mp hu).1
    · exact ⟨_, membersOf_mem_classes hg hlt hu, self_mem_membersOf hg hlt hu⟩
  ne_nil c hc := by
    obtain ⟨v, hv, -, rfl⟩ := mem_classes.mp hc
    exact List.ne_nil_of_mem (self_mem_membersOf hg hlt hv)
  together u hu v hv := by
    constructor
    · rintro ⟨c, hc, huc, hvc⟩
      obtain ⟨w, hw, -, rfl⟩ := mem_classes.mp hc
      rw [← membersOf_eq hg hlt hw huc] at hvc
      exact ((mem_membersOf hg hlt hu).mp hvc).2
    · exact fun h => ⟨_, membersOf_mem_classes hg hlt hu, self_mem_membersOf hg hlt hu,
        (mem_membersOf hg hlt hu).mpr ⟨hv, h⟩⟩

end

/-! ## Searches -/

/-- The search finds the components of the numbers that it looks at, on every graph whose edges lead from
nodes to nodes. -/
def Finds (search : ComponentSearch) (numbers : Graph → List Nat) : Prop :=
  ∀ g : Graph, g.Closed → StronglyConnected g.Arc (numbers g) (search g)

theorem searchNumbers_finds : Finds searchNumbers fun g => List.range g.order :=
  fun _ hg => strong_classes hg (fun _ hv => List.mem_range.mp hv) List.nodup_range

/-- In a closed graph, edges lead to no other numbers than the nodes. -/
theorem perm_listed (hg : g.Closed) : g.listed.toList.Perm g.keys := by
  have hfold : ∀ (v : Nat) (ks : List Nat) (s : IdSet),
      v ∈ ks.foldl (fun found u => found.union (g.succsOf u)) s ↔ v ∈ s ∨ ∃ u ∈ ks, g.Arc u v := by
    intro v ks
    induction ks with
    | nil => simp
    | cons u ks ih =>
      intro s
      rw [List.foldl_cons, ih, IdSet.mem_union, List.exists_mem_cons_iff, or_assoc]
      rfl
  refine (List.perm_ext_iff_of_nodup (IdSet.nodup_toList _) hg.nodup).mpr fun v => ?_
  rw [IdSet.mem_toList, listed, hfold, IdSet.mem_ofList]
  exact or_iff_left_of_imp fun ⟨u, _, harc⟩ => (hg.arc u v harc).2

theorem searchNodes_finds : Finds searchNodes Graph.keys := by
  intro g hg
  have hperm := perm_listed hg
  have hstrong : StronglyConnected g.Arc g.listed.toList (g.classes g.listed.toList) :=
    strong_classes hg (fun v hv => hg.lt v (hperm.mem_iff.mp hv)) (IdSet.nodup_toList _)
  exact ⟨hstrong.perm.trans hperm, hstrong.ne_nil, fun u hu v hv =>
    hstrong.together u (hperm.mem_iff.mpr hu) v (hperm.mem_iff.mpr hv)⟩

/-! ## Listing -/

theorem perm_sorted (c : List Nat) : (sorted c).Perm c := Ordered.perm_sortBy _ _

theorem pairwise_sorted {c : List Nat} (hc : c.Nodup) : (sorted c).Pairwise (· < ·) := by
  have hle := Ordered.pairwise_sortBy (fun v : Nat => (v : Int)) c
  have hne : (sorted c).Pairwise (· ≠ ·) := (perm_sorted c).nodup_iff.mpr hc
  exact (hle.and hne).imp fun h => by omega

/-- The first number of a list in increasing order is the least one. -/
theorem head_sorted_le {c rest : List Nat} (h : sorted c = u :: rest) (hv : v ∈ c) : u ≤ v := by
  have hle := Ordered.pairwise_sortBy (fun v : Nat => (v : Int)) c
  have hmem : v ∈ sorted c := (perm_sorted c).mem_iff.mpr hv
  rw [sorted] at h hmem
  rw [h] at hle hmem
  rcases List.mem_cons.mp hmem with rfl | hmem
  · exact Nat.le_refl _
  · have := (List.pairwise_cons.mp hle).1 v hmem
    omega

/-- The components that a search finds are listed in increasing order, and by their least members. -/
theorem componentsBy_spec {search : ComponentSearch} {nodes : List Nat}
    (h : StronglyConnected g.Arc nodes (search g)) (hnodup : nodes.Nodup) :
    StronglyConnected g.Arc nodes (g.componentsBy search) ∧
      (∀ c ∈ g.componentsBy search, c.Pairwise (· < ·)) ∧
      (g.componentsBy search).Pairwise fun c d => c.headD 0 < d.headD 0 := by
  have hperm : (g.componentsBy search).Perm ((search g).map sorted) := Ordered.perm_sortBy _ _
  have hstrong := h.rearrange perm_sorted hperm
  refine ⟨hstrong, fun c hc => ?_, ?_⟩
  · obtain ⟨d, hd, rfl⟩ := List.mem_map.mp (hperm.mem_iff.mp hc)
    exact pairwise_sorted (h.nodup hnodup hd)
  · have hle := Ordered.pairwise_sortBy (fun c : List Nat => (c.headD 0 : Int)) ((search g).map sorted)
    refine (hle.and (hstrong.disjoint hnodup)).imp_of_mem fun {c d} hc hd h => ?_
    obtain ⟨u, c', rfl⟩ := List.exists_cons_of_ne_nil (hstrong.ne_nil c hc)
    obtain ⟨v, d', rfl⟩ := List.exists_cons_of_ne_nil (hstrong.ne_nil d hd)
    have hne : u ≠ v := by
      rintro rfl
      exact h.2 List.mem_cons_self List.mem_cons_self
    have := h.1
    simp only [List.headD_cons] at this ⊢
    omega

end Graph

end WholeProgram
