import Mathlib.Algebra.BigOperators.Group.Finset.Piecewise
import Mathlib.Algebra.Order.BigOperators.Group.Finset
import WholeProgram.ControlFlow.Graph

/-!
# The tables of a control-flow graph

The two tables of a graph list the edges of its method, by source and by target:

* `Cfg.outEdges_ofMethod`, `Cfg.inEdges_ofMethod` — what the tables hold;
* `Cfg.mem_succs`, `Cfg.mem_preds` — the neighbours of a node are the ends of its edges, so that
  one is a successor of the other where the other is a predecessor of the one (`Cfg.mem_succs_of_mem_preds`);
* `Cfg.sum_succs_le`, `Cfg.sum_preds_le` — there are no more neighbours than edges.
-/

namespace WholeProgram

theorem length_eraseDups_le {α : Type} [BEq α] [LawfulBEq α] (l : List α) :
    l.eraseDups.length ≤ l.length := by
  induction h : l.length using Nat.strong_induction_on generalizing l with
  | _ n ih =>
    cases l with
    | nil => simp
    | cons a l =>
      subst h
      rw [List.eraseDups_cons, List.length_cons, List.length_cons]
      have hfilter := List.length_filter_le (fun b => !b == a) l
      have hrest := ih _ (by rw [List.length_cons]; omega) (l.filter fun b => !b == a) rfl
      omega

/-- The sizes of the lists of a table add up to what a fold over it counts. -/
theorem sum_length_getD {α : Type} (t : Array (List α)) :
    ∑ i ∈ Finset.range t.size, (t.getD i []).length = t.foldl (fun n l => n + l.length) 0 := by
  obtain ⟨ls⟩ := t
  induction ls using List.reverseRecOn with
  | nil => rfl
  | append_singleton ls l ih =>
    have hpre : ∀ i < ls.length, (Array.mk (ls ++ [l])).getD i [] = (Array.mk ls).getD i [] := by
      intro i hi
      simp [Array.getD_eq_getD_getElem?, List.getElem?_append_left hi]
    simp only [List.size_toArray, List.length_append, List.length_singleton, Finset.sum_range_succ]
    simp only [List.size_toArray, List.foldl_toArray'] at ih
    rw [Finset.sum_congr rfl fun i hi => congrArg List.length (hpre i (Finset.mem_range.mp hi)), ih]
    simp [Array.getD_eq_getD_getElem?]

/-- A table of lists in which every member of a list is put under its number. -/
theorem getElem?_foldr_modify {α : Type} (number : α → Nat) (size : Nat) (as : List α) (n : Nat) :
    (as.foldr (fun a t => t.modify (number a) (a :: ·)) (Array.replicate size ([] : List α)))[n]? =
      if n < size then some (as.filter (number · = n)) else none := by
  induction as with
  | nil => simp [Array.getElem?_replicate]
  | cons a as ih =>
    rw [List.foldr_cons, Array.getElem?_modify, ih]
    by_cases hn : n < size
    · by_cases ha : number a = n
      · simp [hn, ha]
      · simp [hn, ha]
    · simp [hn]

namespace Method

variable {m : Method} {n : Nat} {e : Edge}

/-- An edge out of a node has it as its source, and does not lead back to the entry. -/
theorem ends_of_mem_outEdges (h : e ∈ m.outEdges n) : e.source = n ∧ e.target ≠ 0 := by
  unfold outEdges at h
  cases n with
  | zero =>
    obtain rfl := List.mem_singleton.mp h
    exact ⟨rfl, Nat.one_ne_zero⟩
  | succ i =>
    dsimp only at h
    split at h
    · cases h
    · split at h
      · obtain rfl := List.mem_singleton.mp h
        exact ⟨rfl, Nat.succ_ne_zero _⟩
      · rcases List.mem_pair.mp h with rfl | rfl <;> exact ⟨rfl, Nat.succ_ne_zero _⟩
      · rcases List.mem_append.mp h with h | h
        · obtain ⟨c, _, rfl⟩ := List.mem_map.mp h
          exact ⟨rfl, Nat.succ_ne_zero _⟩
        · obtain rfl := List.mem_singleton.mp h
          exact ⟨rfl, Nat.succ_ne_zero _⟩
      · obtain rfl := List.mem_singleton.mp h
        exact ⟨rfl, Nat.succ_ne_zero _⟩
      · obtain rfl := List.mem_singleton.mp h
        exact ⟨rfl, Nat.succ_ne_zero _⟩

theorem source_of_mem_outEdges (h : e ∈ m.outEdges n) : e.source = n :=
  (ends_of_mem_outEdges h).1

theorem target_ne_zero_of_mem_outEdges (h : e ∈ m.outEdges n) : e.target ≠ 0 :=
  (ends_of_mem_outEdges h).2

theorem stmt?_eq_none_of_exit_le (h : m.exit ≤ n + 1) : m.stmt? n = none := by
  unfold exit at h
  simp only [stmt?, Option.map_eq_none_iff, Array.getElem?_eq_none_iff]
  omega

/-- No edge leaves the exit, or what comes after it. -/
theorem outEdges_eq_nil (h : m.exit ≤ n) : m.outEdges n = [] := by
  cases n with
  | zero => exact absurd h (Nat.not_succ_le_zero _)
  | succ i => simp only [outEdges, stmt?_eq_none_of_exit_le h]

theorem lt_exit_of_mem_outEdges (h : e ∈ m.outEdges n) : n < m.exit := by
  by_contra hge
  rw [outEdges_eq_nil (Nat.le_of_not_lt hge)] at h
  cases h

/-- Beyond the statements nothing is done. -/
theorem lt_exit_of_stmtAt_ne (h : m.stmtAt n ≠ .nop) : n < m.exit := by
  by_contra hge
  cases n with
  | zero => exact h rfl
  | succ i =>
    refine h ?_
    simp only [stmtAt, stmt?_eq_none_of_exit_le (Nat.le_of_not_lt hge), Option.getD_none]

theorem mem_edges : e ∈ m.edges ↔ e ∈ m.outEdges e.source := by
  simp only [edges, List.mem_flatMap, List.mem_range]
  constructor
  · rintro ⟨n, _, hn⟩
    rwa [source_of_mem_outEdges hn]
  · intro h
    refine ⟨e.source, ?_, h⟩
    by_contra hge
    rw [outEdges_eq_nil (by unfold exit; unfold numNodes at hge; omega)] at h
    cases h

theorem source_lt_of_mem_edges (h : e ∈ m.edges) : e.source < m.numNodes := by
  obtain ⟨n, hn, he⟩ := List.mem_flatMap.mp h
  rw [source_of_mem_outEdges he]
  exact List.mem_range.mp hn

end Method

namespace Cfg

variable {m : Method} {n k : Nat}

@[simp]
theorem method_ofMethod (m : Method) : (ofMethod m).method = m := rfl

theorem outEdges_ofMethod (m : Method) (n : Nat) : (ofMethod m).outEdges n = m.outEdges n := by
  by_cases h : n < m.numNodes
  · simp [outEdges, ofMethod, Array.getD_eq_getD_getElem?, h]
  · rw [Method.outEdges_eq_nil (by unfold Method.exit; unfold Method.numNodes at h; omega)]
    simp [outEdges, ofMethod, Array.getD_eq_getD_getElem?, h]

theorem getElem?_insTable (size : Nat) (es : List Edge) (n : Nat) :
    (insTable size es)[n]? = if n < size then some (es.filter (·.target = n)) else none :=
  getElem?_foldr_modify Edge.target size es n

theorem inEdges_ofMethod (m : Method) (n : Nat) :
    (ofMethod m).inEdges n = if n < m.numNodes then m.edges.filter (·.target = n) else [] := by
  simp only [inEdges, ofMethod, Array.getD_eq_getD_getElem?, getElem?_insTable]
  split <;> rfl

theorem mem_succs : k ∈ (ofMethod m).succs n ↔ ∃ e ∈ m.outEdges n, e.target = k := by
  simp [succs, outEdges_ofMethod]

theorem mem_preds (hn : n < m.numNodes) :
    k ∈ (ofMethod m).preds n ↔ ∃ e ∈ m.edges, e.target = n ∧ e.source = k := by
  simp [preds, inEdges_ofMethod, hn, and_assoc]

theorem lt_of_mem_preds (h : k ∈ (ofMethod m).preds n) : k < m.numNodes ∧ n < m.numNodes := by
  by_cases hn : n < m.numNodes
  · obtain ⟨e, he, _, rfl⟩ := (mem_preds hn).mp h
    exact ⟨Method.source_lt_of_mem_edges he, hn⟩
  · simp [preds, inEdges_ofMethod, hn] at h

theorem mem_succs_of_mem_preds (h : k ∈ (ofMethod m).preds n) : n ∈ (ofMethod m).succs k := by
  obtain ⟨e, he, htarget, rfl⟩ := (mem_preds (lt_of_mem_preds h).2).mp h
  exact mem_succs.mpr ⟨e, Method.mem_edges.mp he, htarget⟩

theorem mem_preds_of_mem_succs (hk : k < m.numNodes) (h : k ∈ (ofMethod m).succs n) :
    n ∈ (ofMethod m).preds k := by
  obtain ⟨e, he, htarget⟩ := mem_succs.mp h
  have hsource := Method.source_of_mem_outEdges he
  exact (mem_preds hk).mpr ⟨e, Method.mem_edges.mpr (hsource ▸ he), htarget, hsource⟩

theorem succs_eq_nil (h : m.exit ≤ n) : (ofMethod m).succs n = [] := by
  simp [succs, outEdges_ofMethod, Method.outEdges_eq_nil h]

theorem preds_eq_nil (h : m.numNodes ≤ n) : (ofMethod m).preds n = [] := by
  simp [preds, inEdges_ofMethod, Nat.not_lt.mpr h]

theorem sum_succs_le (m : Method) :
    ∑ n ∈ Finset.range m.numNodes, ((ofMethod m).succs n).length ≤ m.edges.length := by
  have hedges : ∀ size, ∑ n ∈ Finset.range size, (m.outEdges n).length =
      ((List.range size).flatMap m.outEdges).length := by
    intro size
    induction size with
    | zero => rfl
    | succ size ih => simp [Finset.sum_range_succ, List.range_succ, ih]
  rw [Method.edges, ← hedges]
  refine Finset.sum_le_sum fun n _ => (length_eraseDups_le _).trans ?_
  rw [List.length_map, outEdges_ofMethod]

theorem sum_preds_le (m : Method) :
    ∑ n ∈ Finset.range m.numNodes, ((ofMethod m).preds n).length ≤ m.edges.length := by
  have hfilter : ∀ es : List Edge,
      ∑ n ∈ Finset.range m.numNodes, (es.filter (·.target = n)).length ≤ es.length := by
    intro es
    induction es with
    | nil => simp
    | cons e es ih =>
      -- an edge has one target
      have hone : ∑ n ∈ Finset.range m.numNodes, (if e.target = n then 1 else 0) ≤ 1 := by
        rw [Finset.sum_ite_eq]
        split <;> omega
      calc ∑ n ∈ Finset.range m.numNodes, ((e :: es).filter (·.target = n)).length
          = ∑ n ∈ Finset.range m.numNodes, ((if e.target = n then 1 else 0) +
              (es.filter (·.target = n)).length) := by
            refine Finset.sum_congr rfl fun n _ => ?_
            by_cases h : e.target = n
            · simp [h, Nat.add_comm]
            · simp [h]
        _ ≤ 1 + es.length := by
            rw [Finset.sum_add_distrib]
            exact Nat.add_le_add hone ih
        _ = (e :: es).length := by rw [List.length_cons, Nat.add_comm]
  refine le_trans (Finset.sum_le_sum fun n hn => (length_eraseDups_le _).trans ?_) (hfilter m.edges)
  rw [List.length_map, inEdges_ofMethod, if_pos (Finset.mem_range.mp hn)]

end Cfg

end WholeProgram
