import Std.Data.HashMap.Lemmas
import Std.Data.HashSet.Lemmas
import WholeProgram.CallGraph.Basic

/-!
# The views of a call graph agree

A call graph lists its reachable methods and its edges in order, and keeps sets of the methods and of
the pairs that edges join, and tables of the edges by call site and by callee, to look them up.
`Consistent` says that all ways of asking agree; every addition keeps it (`Consistent.addReachable`,
`Consistent.addEdge`), and an addition is reported as new exactly when the lists did not have it
(`addReachable_eq`, `addEdge_eq`).
-/

namespace WholeProgram.CallGraph

variable {σ μ : Type} [BEq σ] [Hashable σ] [BEq μ] [Hashable μ] {g : CallGraph σ μ}

/-- The call site may run the method. -/
def HasEdge (g : CallGraph σ μ) (site : σ) (callee : μ) : Prop :=
  ∃ e ∈ g.edges, e.site = site ∧ e.callee = callee

/-- The look-up tables hold what the lists hold, the edges in the order of the list. -/
structure Consistent (g : CallGraph σ μ) : Prop where
  reached : ∀ m, g.isReachable m = true ↔ m ∈ g.reachable
  joined : ∀ site callee, g.joined.contains (site, callee) = true ↔ g.HasEdge site callee
  outs_eq : ∀ site, g.edgesOutOf site = g.edges.filter (·.site == site)
  ins_eq : ∀ callee, g.edgesInto callee = g.edges.filter (·.callee == callee)

theorem Consistent.outs [LawfulBEq σ] (hg : g.Consistent) (site : σ) (e : CallEdge σ μ) :
    e ∈ g.edgesOutOf site ↔ e ∈ g.edges ∧ e.site = site := by
  rw [hg.outs_eq, Array.mem_filter, beq_iff_eq]

theorem Consistent.ins [LawfulBEq μ] (hg : g.Consistent) (callee : μ) (e : CallEdge σ μ) :
    e ∈ g.edgesInto callee ↔ e ∈ g.edges ∧ e.callee = callee := by
  rw [hg.ins_eq, Array.mem_filter, beq_iff_eq]

@[simp]
theorem addEntry_reachable (m : μ) : (g.addEntry m).reachable = g.reachable := by
  unfold addEntry
  split <;> rfl

@[simp]
theorem addEntry_edges (m : μ) : (g.addEntry m).edges = g.edges := by
  unfold addEntry
  split <;> rfl

@[simp]
theorem addReachable_entries (m : μ) : (g.addReachable m).1.entries = g.entries := by
  unfold addReachable
  split <;> rfl

@[simp]
theorem addReachable_edges (m : μ) : (g.addReachable m).1.edges = g.edges := by
  unfold addReachable
  split <;> rfl

@[simp]
theorem addEdge_reachable (kind : CallKind) (site : σ) (callee : μ) :
    (g.addEdge kind site callee).1.reachable = g.reachable := by
  unfold addEdge
  split <;> rfl

@[simp]
theorem addEdge_entries (kind : CallKind) (site : σ) (callee : μ) :
    (g.addEdge kind site callee).1.entries = g.entries := by
  unfold addEdge
  split <;> rfl

theorem mem_addEntry [LawfulBEq μ] (m k : μ) : k ∈ (g.addEntry m).entries ↔ k ∈ g.entries ∨ m = k := by
  unfold addEntry
  split
  · rename_i hm
    have hm : m ∈ g.entries := by simpa using hm
    exact ⟨Or.inl, fun h => h.elim id fun h => h ▸ hm⟩
  · simp [eq_comm]

theorem Consistent.addEntry (hg : g.Consistent) (m : μ) : (g.addEntry m).Consistent := by
  unfold CallGraph.addEntry
  split
  · exact hg
  · exact ⟨hg.reached, hg.joined, hg.outs_eq, hg.ins_eq⟩

/-- A method that is reachable is not added again, and one that is not is added. -/
theorem addReachable_eq (hg : g.Consistent) (m : μ) :
    (m ∈ g.reachable ∧ g.addReachable m = (g, false)) ∨
    (m ∉ g.reachable ∧ g.addReachable m =
      ({ g with reachable := g.reachable.push m, reached := g.reached.insert m }, true)) := by
  unfold addReachable
  by_cases hm : g.isReachable m = true
  · exact Or.inl ⟨(hg.reached m).mp hm, if_pos hm⟩
  · exact Or.inr ⟨fun h => hm ((hg.reached m).mpr h), if_neg hm⟩

theorem mem_addReachable (hg : g.Consistent) (m k : μ) :
    k ∈ (g.addReachable m).1.reachable ↔ k ∈ g.reachable ∨ m = k := by
  rcases addReachable_eq hg m with ⟨hmem, heq⟩ | ⟨_, heq⟩
  · rw [heq]
    exact ⟨Or.inl, fun h => h.elim id fun h => h ▸ hmem⟩
  · rw [heq]
    simp [eq_comm]

variable [LawfulBEq σ] [LawfulBEq μ]

theorem consistent_empty : ({} : CallGraph σ μ).Consistent where
  reached m := by simp [isReachable]
  joined site callee := by simp [HasEdge]
  outs_eq site := by simp [edgesOutOf]
  ins_eq callee := by simp [edgesInto]

omit [LawfulBEq σ] in
theorem Consistent.addReachable (hg : g.Consistent) (m : μ) : (g.addReachable m).1.Consistent := by
  rcases addReachable_eq hg m with ⟨_, h⟩ | ⟨_, h⟩
  · rw [h]
    exact hg
  · rw [h]
    refine ⟨?_, hg.joined, hg.outs_eq, hg.ins_eq⟩
    intro k
    have hk := hg.reached k
    simp only [isReachable] at hk
    simp only [isReachable, Std.HashSet.contains_insert, Bool.or_eq_true, beq_iff_eq,
      Array.mem_push, hk]
    exact ⟨fun h => h.elim (fun he => Or.inr he.symm) Or.inl,
      fun h => h.elim Or.inr fun he => Or.inl he.symm⟩

omit [LawfulBEq σ] [LawfulBEq μ] in
/-- An edge that is there is not added again, and one that is not is added. -/
theorem addEdge_eq (hg : g.Consistent) (kind : CallKind) (site : σ) (callee : μ) :
    (g.HasEdge site callee ∧ g.addEdge kind site callee = (g, false)) ∨
    (¬ g.HasEdge site callee ∧ ∃ joined outs ins, g.addEdge kind site callee =
      ({ g with edges := g.edges.push { kind, site, callee }, joined, outs, ins }, true)) := by
  unfold addEdge
  by_cases h : g.joined.contains (site, callee) = true
  · exact Or.inl ⟨(hg.joined site callee).mp h, if_pos h⟩
  · exact Or.inr ⟨fun he => h ((hg.joined site callee).mpr he), _, _, _, if_neg h⟩

omit [BEq σ] [Hashable σ] [BEq μ] [Hashable μ] [LawfulBEq σ] [LawfulBEq μ] in
/-- A table of edges by one of their ends gets a new edge where the filtered list of edges gets it. -/
theorem getD_alter_push {κ : Type} [BEq κ] [Hashable κ] [LawfulBEq κ] {end? : CallEdge σ μ → κ}
    {table : Std.HashMap κ (Array (CallEdge σ μ))} {edges : Array (CallEdge σ μ)}
    (h : ∀ k, (table[k]?).getD #[] = edges.filter (end? · == k)) (e : CallEdge σ μ) (k : κ) :
    ((table.alter (end? e) fun es => some ((es.getD #[]).push e))[k]?).getD #[] =
      (edges.push e).filter (end? · == k) := by
  rw [Std.HashMap.getElem?_alter, Array.filter_push, ← h k]
  by_cases hk : end? e = k
  · subst hk
    simp
  · simp [hk]

theorem Consistent.addEdge (hg : g.Consistent) (kind : CallKind) (site : σ) (callee : μ) :
    (g.addEdge kind site callee).1.Consistent := by
  unfold CallGraph.addEdge
  split
  · exact hg
  · refine ⟨hg.reached, fun s m => ?_, fun s => ?_, fun m => ?_⟩
    · have hpair := hg.joined s m
      simp only [Std.HashSet.contains_insert, Bool.or_eq_true, beq_iff_eq, Prod.mk.injEq, hpair, HasEdge,
        Array.mem_push]
      constructor
      · rintro (⟨rfl, rfl⟩ | ⟨e, he, h⟩)
        · exact ⟨_, Or.inr rfl, rfl, rfl⟩
        · exact ⟨e, Or.inl he, h⟩
      · rintro ⟨e, he | rfl, h⟩
        · exact Or.inr ⟨e, he, h⟩
        · exact Or.inl h
    · exact getD_alter_push hg.outs_eq { kind, site, callee } s
    · exact getD_alter_push hg.ins_eq { kind, site, callee } m

omit [LawfulBEq σ] [LawfulBEq μ] in
theorem hasEdge_addEdge (hg : g.Consistent) (kind : CallKind) (site s : σ) (callee m : μ) :
    (g.addEdge kind site callee).1.HasEdge s m ↔ g.HasEdge s m ∨ (site = s ∧ callee = m) := by
  rcases addEdge_eq hg kind site callee with ⟨hmem, heq⟩ | ⟨_, joined, outs, ins, heq⟩
  · rw [heq]
    exact ⟨Or.inl, fun h => h.elim id fun h => h.1 ▸ h.2 ▸ hmem⟩
  · rw [heq]
    simp only [HasEdge, Array.mem_push]
    constructor
    · rintro ⟨e, he | rfl, h⟩
      · exact Or.inl ⟨e, he, h⟩
      · exact Or.inr h
    · rintro (⟨e, he, h⟩ | h)
      · exact ⟨e, Or.inl he, h⟩
      · exact ⟨_, Or.inr rfl, h⟩

/-! ## Building a graph from lists -/

variable {α : Type}

omit [LawfulBEq σ] [LawfulBEq μ] in
theorem Consistent.addEntries (as : List α) (f : α → μ) (hg : g.Consistent) :
    (as.foldl (fun g a => g.addEntry (f a)) g).Consistent ∧
    (as.foldl (fun g a => g.addEntry (f a)) g).reachable = g.reachable ∧
    (as.foldl (fun g a => g.addEntry (f a)) g).edges = g.edges := by
  induction as generalizing g with
  | nil => exact ⟨hg, rfl, rfl⟩
  | cons a as ih =>
    obtain ⟨hcons, hreach, hedges⟩ := ih (hg.addEntry (f a))
    exact ⟨hcons, by simpa using hreach, by simpa using hedges⟩

omit [LawfulBEq σ] in
theorem mem_addEntries (as : List α) (f : α → μ) (g : CallGraph σ μ) (m : μ) :
    m ∈ (as.foldl (fun g a => g.addEntry (f a)) g).entries ↔ m ∈ g.entries ∨ ∃ a ∈ as, f a = m := by
  induction as generalizing g with
  | nil => simp
  | cons a as ih =>
    rw [List.foldl_cons, ih, mem_addEntry]
    simp only [List.mem_cons, exists_eq_or_imp, or_assoc]

omit [LawfulBEq σ] in
theorem Consistent.addReachables (as : List α) (f : α → μ) (hg : g.Consistent) :
    (as.foldl (fun g a => (g.addReachable (f a)).1) g).Consistent ∧
    (∀ m, m ∈ (as.foldl (fun g a => (g.addReachable (f a)).1) g).reachable ↔
      m ∈ g.reachable ∨ ∃ a ∈ as, f a = m) ∧
    (as.foldl (fun g a => (g.addReachable (f a)).1) g).edges = g.edges := by
  induction as generalizing g with
  | nil => exact ⟨hg, by simp, rfl⟩
  | cons a as ih =>
    obtain ⟨hcons, hreach, hedges⟩ := ih (hg.addReachable (f a))
    refine ⟨hcons, fun m => ?_, hedges.trans (addReachable_edges (f a))⟩
    rw [List.foldl_cons, hreach, mem_addReachable hg]
    simp only [List.mem_cons, exists_eq_or_imp, or_assoc]

theorem Consistent.addEdges (as : List α) (kind : α → CallKind) (site : α → σ) (callee : α → μ)
    (hg : g.Consistent) :
    (∀ s m, (as.foldl (fun g a => (g.addEdge (kind a) (site a) (callee a)).1) g).HasEdge s m ↔
      g.HasEdge s m ∨ ∃ a ∈ as, site a = s ∧ callee a = m) ∧
    (as.foldl (fun g a => (g.addEdge (kind a) (site a) (callee a)).1) g).reachable =
      g.reachable := by
  induction as generalizing g with
  | nil => exact ⟨by simp, rfl⟩
  | cons a as ih =>
    obtain ⟨hedges, hreach⟩ := ih (hg.addEdge (kind a) (site a) (callee a))
    have hsame := addEdge_reachable (g := g) (kind a) (site a) (callee a)
    refine ⟨fun s m => ?_, hreach.trans hsame⟩
    rw [List.foldl_cons, hedges, hasEdge_addEdge hg]
    simp only [List.mem_cons, exists_eq_or_imp, or_assoc]

/-! ## Graphs built step by step -/

/-- The graph was built from the empty one by adding entries, methods and edges. -/
inductive Built : CallGraph σ μ → Prop
  | empty : Built {}
  | entry {g : CallGraph σ μ} (m : μ) : Built g → Built (g.addEntry m)
  | reach {g : CallGraph σ μ} (m : μ) : Built g → Built (g.addReachable m).1
  | edge {g : CallGraph σ μ} (kind : CallKind) (site : σ) (callee : μ) : Built g →
      Built (g.addEdge kind site callee).1

namespace Built

omit [LawfulBEq σ] [LawfulBEq μ] in
/-- Steps that build a graph, one for each member of a list. -/
theorem foldl {step : CallGraph σ μ → α → CallGraph σ μ} (hstep : ∀ g a, Built g → Built (step g a))
    (as : List α) (hg : Built g) : Built (as.foldl step g) :=
  List.foldlRecOn as step hg fun g hg a _ => hstep g a hg

theorem consistent (h : Built g) : g.Consistent := by
  induction h with
  | empty => exact consistent_empty
  | entry m _ ih => exact ih.addEntry m
  | reach m _ ih => exact ih.addReachable m
  | edge kind site callee _ ih => exact ih.addEdge kind site callee

/-- No method is listed twice. -/
theorem nodup_reachable (h : Built g) : g.reachable.toList.Nodup := by
  induction h with
  | empty => exact List.nodup_nil
  | entry m _ ih => rwa [addEntry_reachable]
  | @reach g m hg ih =>
    rcases addReachable_eq hg.consistent m with ⟨_, heq⟩ | ⟨hnot, heq⟩
    · rwa [heq]
    · rw [heq, Array.toList_push]
      refine List.nodup_append.mpr ⟨ih, by simp, ?_⟩
      rintro a ha b hb rfl
      exact hnot (List.mem_singleton.mp hb ▸ Array.mem_toList_iff.mp ha)
  | edge kind site callee _ ih => rwa [addEdge_reachable]

/-- No two edges have the same call site and the same callee. -/
theorem nodup_edges (h : Built g) : (g.edges.toList.map fun e => (e.site, e.callee)).Nodup := by
  induction h with
  | empty => exact List.nodup_nil
  | entry m _ ih => rwa [addEntry_edges]
  | reach m _ ih => rwa [addReachable_edges]
  | @edge g kind site callee hg ih =>
    rcases addEdge_eq hg.consistent kind site callee with ⟨_, heq⟩ | ⟨hnot, joined, outs, ins, heq⟩
    · rwa [heq]
    · rw [heq, Array.toList_push, List.map_append]
      refine List.nodup_append.mpr ⟨ih, by simp, ?_⟩
      rintro a ha b hb rfl
      obtain ⟨e, he, heq⟩ := List.mem_map.mp ha
      obtain ⟨hsite, hcallee⟩ := Prod.mk.inj (heq.trans (List.mem_singleton.mp hb))
      exact hnot ⟨e, Array.mem_toList_iff.mp he, hsite, hcallee⟩

/-- No callee of a call site is listed twice. -/
theorem nodup_calleesOf (h : Built g) (site : σ) : (g.calleesOf site).Nodup := by
  have hpairs : ((g.edgesOutOf site).toList.map fun e => (e.site, e.callee)).Nodup := by
    rw [h.consistent.outs_eq, Array.toList_filter]
    exact h.nodup_edges.sublist (List.filter_sublist.map _)
  have hsame : (g.edgesOutOf site).toList.map (fun e => (e.site, e.callee)) =
      (g.calleesOf site).map fun m => (site, m) := by
    rw [calleesOf, List.map_map]
    refine List.map_congr_left fun e he => ?_
    rw [((h.consistent.outs site e).mp (Array.mem_toList_iff.mp he)).2]
    rfl
  rw [hsame] at hpairs
  exact List.Pairwise.of_map (fun m => (site, m)) (fun m k hne hmk => hne (by rw [hmk])) hpairs

end Built

omit [LawfulBEq μ] in
theorem mem_calleesOf (hg : g.Consistent) {site : σ} {m : μ} :
    m ∈ g.calleesOf site ↔ g.HasEdge site m := by
  simp only [calleesOf, List.mem_map, Array.mem_toList_iff, hg.outs, HasEdge, and_assoc]

omit [LawfulBEq σ] in
theorem mem_callersOf (hg : g.Consistent) {site : σ} {m : μ} :
    site ∈ g.callersOf m ↔ g.HasEdge site m := by
  simp only [callersOf, List.mem_map, Array.mem_toList_iff, hg.ins, HasEdge, and_assoc, and_comm]

end WholeProgram.CallGraph
