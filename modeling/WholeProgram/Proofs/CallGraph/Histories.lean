import WholeProgram.Proofs.CallGraph.Recursion
import WholeProgram.Proofs.Data.Distinct

/-!
# What a call graph says after a sequence of additions

Entries, reachable methods and edges may be added in any order, an edge before its methods are
reachable or without their ever being so. `Addition` is one such call, and `afterAll` the graph after a
sequence of them. Each view of the graph is a function of the sequence:

* `toList_reachable`, `toList_edges` — methods and edges are listed as they were first added;
* `mem_reachable_iff`, `hasEdge_iff` — so an addition is new when the sequence does not have it;
* `perm_edgesOutOf`, `perm_edgesInto` — the edges by call site, and those by callee, are the edges;
* `reflects_afterAll` — all views together.
-/

namespace WholeProgram.CallGraph

variable {σ μ : Type}

/-- A call that adds something to a call graph. -/
inductive Addition (σ μ : Type) where
  | entry (m : μ)
  | reach (m : μ)
  | edge (kind : CallKind) (site : σ) (callee : μ)

namespace Addition

def entry? : Addition σ μ → Option μ
  | entry m => some m
  | _ => none

def reach? : Addition σ μ → Option μ
  | reach m => some m
  | _ => none

def edge? : Addition σ μ → Option (CallEdge σ μ)
  | edge kind site callee => some { kind, site, callee }
  | _ => none

end Addition

variable [BEq σ] [Hashable σ] [BEq μ] [Hashable μ] {g : CallGraph σ μ} {as : List (Addition σ μ)}
  {site : σ} {m : μ}

/-- The graph after an addition. -/
def add (g : CallGraph σ μ) : Addition σ μ → CallGraph σ μ
  | .entry m => g.addEntry m
  | .reach m => (g.addReachable m).1
  | .edge kind site callee => (g.addEdge kind site callee).1

/-- The graph after a sequence of additions to the empty one. -/
def afterAll (as : List (Addition σ μ)) : CallGraph σ μ := as.foldl add {}

/-- The edges join the same call site and callee, maybe with different kinds. -/
def sameEnds (e e' : CallEdge σ μ) : Bool := e.site == e'.site && e.callee == e'.callee

theorem afterAll_concat (as : List (Addition σ μ)) (a : Addition σ μ) :
    afterAll (as ++ [a]) = (afterAll as).add a := List.foldl_concat _ _ _ _

theorem built_afterAll (as : List (Addition σ μ)) : (afterAll as).Built :=
  Built.foldl (fun g a hg => by
    cases a with
    | entry m => exact .entry m hg
    | reach m => exact .reach m hg
    | edge kind site callee => exact .edge kind site callee hg) as .empty

/-! ## The lists -/

/-- A list to which an addition of one kind appends, unless it is there already, lists the additions of
that kind as they were first made. -/
theorem view_afterAll {α : Type} (view : CallGraph σ μ → List α) (part? : Addition σ μ → Option α)
    (same : α → α → Bool) (hnil : view {} = [])
    (hnew : ∀ {g a x}, g.Built → part? a = some x →
      view (g.add a) = if (view g).any (same x) then view g else view g ++ [x])
    (hother : ∀ {g a}, part? a = none → view (g.add a) = view g) (as : List (Addition σ μ)) :
    view (afterAll as) = (as.filterMap part?).eraseDupsBy same := by
  induction as using List.reverseRecOn with
  | nil => exact hnil
  | append_singleton as a ih =>
    rw [afterAll_concat, List.filterMap_append]
    cases hpart : part? a with
    | none => rw [hother hpart, ih, List.filterMap_cons_none hpart, List.filterMap_nil, List.append_nil]
    | some x =>
      rw [hnew (built_afterAll as) hpart, List.filterMap_cons_some hpart, List.filterMap_nil,
        eraseDupsBy_concat, ih]

/-- The entries are listed as they were first added. -/
theorem toList_entries (as : List (Addition σ μ)) :
    (afterAll as).entries.toList = (as.filterMap Addition.entry?).eraseDups := by
  refine view_afterAll (·.entries.toList) Addition.entry? (· == ·) rfl (fun {g a k} _ hk => ?_)
    (fun {g a} hnone => ?_) as
  · cases a with
    | entry m =>
      obtain rfl := Option.some.inj hk
      show (g.addEntry m).entries.toList = _
      rw [addEntry, ← List.contains_eq_any_beq, Array.contains_toList]
      split
      · rfl
      · exact Array.toList_push
    | _ => cases hk
  · cases a with
    | entry m => cases hnone
    | reach m => exact congrArg Array.toList (addReachable_entries m)
    | edge kind site callee => exact congrArg Array.toList (addEdge_entries kind site callee)

variable [LawfulBEq σ] [LawfulBEq μ]

/-- The methods are listed as they first became reachable. -/
theorem toList_reachable (as : List (Addition σ μ)) :
    (afterAll as).reachable.toList = (as.filterMap Addition.reach?).eraseDups := by
  refine view_afterAll (·.reachable.toList) Addition.reach? (· == ·) rfl (fun {g a k} hg hk => ?_)
    (fun {g a} hnone => ?_) as
  · cases a with
    | reach m =>
      obtain rfl := Option.some.inj hk
      show (g.addReachable m).1.reachable.toList = _
      rw [← List.contains_eq_any_beq, Array.contains_toList]
      rcases addReachable_eq hg.consistent m with ⟨hold, heq⟩ | ⟨hnew, heq⟩
      · rw [heq, if_pos (Array.contains_iff_mem.mpr hold)]
      · rw [heq, if_neg (mt Array.contains_iff_mem.mp hnew), Array.toList_push]
    | _ => cases hk
  · cases a with
    | reach m => cases hnone
    | entry m => exact congrArg Array.toList (addEntry_reachable m)
    | edge kind site callee => exact congrArg Array.toList (addEdge_reachable kind site callee)

omit [Hashable σ] [Hashable μ] in
theorem sameEnds_iff {e e' : CallEdge σ μ} :
    sameEnds e e' = true ↔ e.site = e'.site ∧ e.callee = e'.callee := by
  rw [sameEnds, Bool.and_eq_true, beq_iff_eq, beq_iff_eq]

/-- An edge with the same ends is there already exactly if its ends are joined. -/
theorem any_sameEnds_iff {e : CallEdge σ μ} :
    g.edges.toList.any (sameEnds e) = true ↔ g.HasEdge e.site e.callee := by
  simp only [List.any_eq_true, Array.mem_toList_iff, sameEnds_iff, HasEdge, eq_comm (a := e.site),
    eq_comm (a := e.callee)]

/-- The edges are listed as they were first added, each with the kind that it was first given. -/
theorem toList_edges (as : List (Addition σ μ)) :
    (afterAll as).edges.toList = (as.filterMap Addition.edge?).eraseDupsBy sameEnds := by
  refine view_afterAll (·.edges.toList) Addition.edge? sameEnds rfl (fun {g a e} hg he => ?_)
    (fun {g a} hnone => ?_) as
  · cases a with
    | edge kind site callee =>
      obtain rfl := Option.some.inj he
      show (g.addEdge kind site callee).1.edges.toList = _
      rcases addEdge_eq hg.consistent kind site callee with
        ⟨hold, heq⟩ | ⟨hnew, joined, outs, ins, heq⟩
      · rw [heq, if_pos (any_sameEnds_iff.mpr hold)]
      · rw [heq, if_neg (mt any_sameEnds_iff.mp hnew), Array.toList_push]
    | _ => cases he
  · cases a with
    | edge kind site callee => cases hnone
    | entry m => exact congrArg Array.toList (addEntry_edges m)
    | reach m => exact congrArg Array.toList (addReachable_edges m)

/-! ## What is new -/

/-- A method is reachable exactly if it was added. -/
theorem mem_reachable_iff : m ∈ (afterAll as).reachable ↔ .reach m ∈ as := by
  rw [← Array.mem_toList_iff, toList_reachable, List.mem_eraseDups, List.mem_filterMap]
  constructor
  · rintro ⟨a, ha, hm⟩
    cases a with
    | reach k =>
      obtain rfl := Option.some.inj hm
      exact ha
    | _ => cases hm
  · exact fun h => ⟨_, h, rfl⟩

/-- A call site and a callee are joined exactly if an edge from the one to the other was added, of
whatever kind. -/
theorem hasEdge_iff : (afterAll as).HasEdge site m ↔ ∃ kind, .edge kind site m ∈ as := by
  induction as using List.reverseRecOn with
  | nil => simp [afterAll, HasEdge]
  | append_singleton as a ih =>
    rw [afterAll_concat]
    cases a with
    | edge kind s k =>
      refine (hasEdge_addEdge (built_afterAll as).consistent kind s site k m).trans ?_
      rw [ih]
      simp only [List.mem_append, List.mem_singleton, Addition.edge.injEq, exists_or]
      refine or_congr_right ⟨fun h => ⟨kind, rfl, h.1.symm, h.2.symm⟩, ?_⟩
      rintro ⟨_, -, hs, hk⟩
      exact ⟨hs.symm, hk.symm⟩
    | entry k =>
      show ((afterAll as).addEntry k).HasEdge site m ↔ _
      simpa [HasEdge] using ih
    | reach k =>
      show ((afterAll as).addReachable k).1.HasEdge site m ↔ _
      simpa [HasEdge] using ih

/-! ## The edges by their ends -/

omit [LawfulBEq μ] in
/-- The edges of all call sites are the edges, whatever the order of the call sites. -/
theorem perm_edgesOutOf (hg : g.Consistent) {sites : List σ} (hsites : sites.Nodup)
    (hall : ∀ e ∈ g.edges, e.site ∈ sites) :
    (sites.flatMap fun s => (g.edgesOutOf s).toList).Perm g.edges.toList := by
  simp only [hg.outs_eq, Array.toList_filter]
  exact perm_flatMap_filter (·.site) hsites fun e he => hall e (Array.mem_toList_iff.mp he)

omit [LawfulBEq σ] in
/-- The edges to all methods are the edges, whatever the order of the methods. -/
theorem perm_edgesInto (hg : g.Consistent) {ms : List μ} (hms : ms.Nodup)
    (hall : ∀ e ∈ g.edges, e.callee ∈ ms) :
    (ms.flatMap fun m => (g.edgesInto m).toList).Perm g.edges.toList := by
  simp only [hg.ins_eq, Array.toList_filter]
  exact perm_flatMap_filter (·.callee) hms fun e he => hall e (Array.mem_toList_iff.mp he)

/-- The graph of the methods has an edge where a call site in one of them may call the other. -/
theorem arc_toGraph_iff (hg : g.Built) (containerOf : σ → μ) (label : μ → String) {i j : Nat} :
    (g.toGraph containerOf label).Arc i j ↔ ∃ e ∈ g.edges,
      g.reachable[i]? = some (containerOf e.site) ∧ g.reachable[j]? = some e.callee := by
  rw [(toGraph_spec hg.nodup_reachable containerOf label).2.2]
  constructor
  · rintro ⟨m, k, hi, hj, -, -, e, he, rfl, rfl⟩
    exact ⟨e, he, hi, hj⟩
  · rintro ⟨e, he, hi, hj⟩
    exact ⟨_, _, hi, hj, Array.mem_of_getElem? hi, Array.mem_of_getElem? hj, e, he, rfl, rfl⟩

/-! ## All views -/

/-- What the views of a call graph say after a sequence of additions. -/
structure Reflects (as : List (Addition σ μ)) (g : CallGraph σ μ) : Prop where
  /-- A method is new exactly if it was not added before. -/
  new_method : ∀ m, (g.addReachable m).2 = true ↔ .reach m ∉ as
  /-- An edge is new exactly if none with its ends was added before. -/
  new_edge : ∀ kind s m, (g.addEdge kind s m).2 = true ↔ ∀ kind', .edge kind' s m ∉ as
  entries : g.entries.toList = (as.filterMap Addition.entry?).eraseDups
  reachable : g.reachable.toList = (as.filterMap Addition.reach?).eraseDups
  /-- The edges are the first additions with their ends, in order. -/
  edges : g.edges.toList = (as.filterMap Addition.edge?).eraseDupsBy sameEnds
  /-- Each end keeps its edges in that order, -/
  outs : ∀ s, g.edgesOutOf s = g.edges.filter (·.site == s)
  ins : ∀ m, g.edgesInto m = g.edges.filter (·.callee == m)
  /-- and together they are all edges, none of them twice. -/
  all_outs : ∀ sites : List σ, sites.Nodup → (∀ e ∈ g.edges, e.site ∈ sites) →
    (sites.flatMap fun s => (g.edgesOutOf s).toList).Perm g.edges.toList
  all_ins : ∀ ms : List μ, ms.Nodup → (∀ e ∈ g.edges, e.callee ∈ ms) →
    (ms.flatMap fun m => (g.edgesInto m).toList).Perm g.edges.toList
  nodup_ends : (g.edges.toList.map fun e => (e.site, e.callee)).Nodup
  converse : ∀ s m, m ∈ g.calleesOf s ↔ s ∈ g.callersOf m
  /-- The callees of a reachable method are those of its call sites, each once. -/
  through : ∀ sites, ∀ m ∈ g.reachable, (g.calleesThrough sites m).Nodup ∧
    ∀ k, k ∈ g.calleesThrough sites m ↔ ∃ s ∈ sites m, k ∈ g.calleesOf s
  /-- The graph of the methods numbers them as they became reachable, and has an edge where a call site
  contained in one of them may call the other. -/
  arcs : ∀ containerOf label i j, (g.toGraph containerOf label).Arc i j ↔ ∃ e ∈ g.edges,
    g.reachable[i]? = some (containerOf e.site) ∧ g.reachable[j]? = some e.callee

/-- After any sequence of additions the views of a call graph agree with it, and so with each other. -/
theorem reflects_afterAll (as : List (Addition σ μ)) : Reflects as (afterAll as) := by
  have hbuilt := built_afterAll as
  have hg := hbuilt.consistent
  refine ⟨fun m => ?_, fun kind s m => ?_, toList_entries as, toList_reachable as, toList_edges as,
    hg.outs_eq, hg.ins_eq, fun sites => perm_edgesOutOf hg, fun ms => perm_edgesInto hg,
    hbuilt.nodup_edges, fun s m => ?_, fun sites m hm => ?_, fun containerOf label i j => ?_⟩
  · rw [← mem_reachable_iff]
    rcases addReachable_eq hg m with ⟨hold, heq⟩ | ⟨hnew, heq⟩
    · simp [heq, hold]
    · simp [heq, hnew]
  · rw [← not_exists, ← hasEdge_iff]
    rcases addEdge_eq hg kind s m with ⟨hold, heq⟩ | ⟨hnew, joined, outs, ins, heq⟩
    · simp [heq, hold]
    · simp [heq, hnew]
  · rw [mem_calleesOf hg, mem_callersOf hg]
  · have hsites : (afterAll as).sitesOf sites m = sites m := if_pos ((hg.reached m).mpr hm)
    rw [calleesThrough, hsites]
    refine ⟨nodup_eraseDups _, fun k => ?_⟩
    rw [List.mem_eraseDups, List.mem_flatMap]
  · exact arc_toGraph_iff hbuilt containerOf label

/-- Additions in which an edge comes before its callee is reachable, and again with another kind. -/
def repeated : List (Addition Site MethodId) :=
  [.edge .static ⟨0, 3⟩ 1, .reach 0, .edge .virtual ⟨0, 3⟩ 1, .reach 1, .reach 0]

/-- The views of a graph with an edge that is added twice. -/
theorem reflects_afterAll_repeated :
    Reflects repeated (afterAll repeated) ∧
      (afterAll repeated).reachable.toList = [0, 1] ∧
      ((afterAll repeated).edges.toList.map fun e => (e.kind, e.site, e.callee)) =
        [(.static, ⟨0, 3⟩, 1)] := by
  have h := reflects_afterAll repeated
  refine ⟨h, ?_, ?_⟩
  · rw [h.reachable]
    decide
  · rw [h.edges]
    decide

end WholeProgram.CallGraph
