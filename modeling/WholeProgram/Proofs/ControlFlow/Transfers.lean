import WholeProgram.Proofs.ControlFlow.Tables

/-!
# The control transfers of a method

Node `i + 1` of a method is its statement `i`; the node after the last statement is the exit.

* `Transfer` — the ways in which control passes between two nodes, one by one;
* `mem_outEdges_iff` — the edges of a method are these;
* `Cfg.Faithful` — a graph holds them and no others, a switch has one edge per case, and the two tables
  are converse;
* `Cfg.faithful_ofMethod` — the graph of a method whose jumps go to its nodes is of this kind.
-/

namespace WholeProgram

/-- The part of a list that is made for one key, where only this part has what is looked for. -/
theorem filter_flatMap_eq {α β : Type} [DecidableEq α] {l : List α} {f : α → List β} {p : β → Bool}
    (key : α) (hl : l.Nodup) (hp : ∀ a ∈ l, ∀ b ∈ f a, p b = true → a = key) :
    (l.flatMap f).filter p = if key ∈ l then (f key).filter p else [] := by
  induction l with
  | nil => rfl
  | cons a l ih =>
    obtain ⟨ha, hl⟩ := List.nodup_cons.mp hl
    rw [List.flatMap_cons, List.filter_append, ih hl fun c hc => hp c (List.mem_cons_of_mem _ hc)]
    by_cases hkey : a = key
    · subst hkey
      simp [ha]
    · have hnone : (f a).filter p = [] := by
        rw [List.filter_eq_nil_iff]
        exact fun b hb h => hkey (hp a List.mem_cons_self b hb h)
      simp [hnone, Ne.symm hkey]

namespace Stmt

/-- Control goes on to what follows the statement. -/
def FallsThrough {τ : Type} : Stmt τ → Prop
  | branch .. | jump .. | switch .. | ret .. => False
  | _ => True

end Stmt

/-- The value and the target of the edge of a case. -/
def Edge.case? (e : Edge) : Option (Int64 × Nat) :=
  match e.kind with
  | .switchCase v => some (v, e.target)
  | _ => none

namespace Method

variable {m : Method} {n i : Nat} {e : Edge}

/-- How control passes between the nodes of a method: from the entry to the first statement, from a
statement to the next one or to where it jumps, and from a return to the exit. -/
inductive Transfer (m : Method) : Edge → Prop
  | entry : Transfer m ⟨.entry, 0, 1⟩
  | next {i : Nat} {s : Stmt Nat} : m.stmt? i = some s → s.FallsThrough →
      Transfer m ⟨.fallThrough, i + 1, i + 2⟩
  | jump {i t : Nat} : m.stmt? i = some (.jump t) → Transfer m ⟨.jump, i + 1, t + 1⟩
  | branchTaken {i t : Nat} {op : BinaryOp} {x y : VarId} : m.stmt? i = some (.branch op x y t) →
      Transfer m ⟨.ifTrue, i + 1, t + 1⟩
  | branchPassed {i t : Nat} {op : BinaryOp} {x y : VarId} : m.stmt? i = some (.branch op x y t) →
      Transfer m ⟨.ifFalse, i + 1, i + 2⟩
  | case {i d : Nat} {x : VarId} {cases : List (Int64 × Nat)} {c : Int64 × Nat} :
      m.stmt? i = some (.switch x cases d) → c ∈ cases → Transfer m ⟨.switchCase c.1, i + 1, c.2 + 1⟩
  | default {i d : Nat} {x : VarId} {cases : List (Int64 × Nat)} : m.stmt? i = some (.switch x cases d) →
      Transfer m ⟨.switchDefault, i + 1, d + 1⟩
  | ret {i : Nat} {x : Option VarId} : m.stmt? i = some (.ret x) → Transfer m ⟨.ret, i + 1, m.exit⟩

theorem outEdges_of_fallsThrough {s : Stmt Nat} (hs : m.stmt? i = some s) (h : s.FallsThrough) :
    m.outEdges (i + 1) = [⟨.fallThrough, i + 1, i + 2⟩] := by
  cases s <;> first | exact False.elim h | simp only [outEdges, hs]

theorem transfer_of_mem_outEdges (h : e ∈ m.outEdges n) : m.Transfer e := by
  unfold outEdges at h
  cases n with
  | zero =>
    obtain rfl := List.mem_singleton.mp h
    exact .entry
  | succ i =>
    dsimp only at h
    split at h
    · cases h
    · rename_i s hs
      cases s with
      | jump =>
        obtain rfl := List.mem_singleton.mp h
        exact .jump hs
      | branch =>
        rcases List.mem_pair.mp h with rfl | rfl
        · exact .branchTaken hs
        · exact .branchPassed hs
      | switch =>
        rcases List.mem_append.mp h with h | h
        · obtain ⟨c, hc, rfl⟩ := List.mem_map.mp h
          exact .case hs hc
        · obtain rfl := List.mem_singleton.mp h
          exact .default hs
      | ret =>
        obtain rfl := List.mem_singleton.mp h
        exact .ret hs
      | _ =>
        obtain rfl := List.mem_singleton.mp h
        exact .next hs trivial

theorem Transfer.mem_outEdges (h : m.Transfer e) : e ∈ m.outEdges e.source := by
  cases h with
  | entry => exact List.mem_singleton_self _
  | next hs hnext =>
    rw [outEdges_of_fallsThrough hs hnext]
    exact List.mem_singleton_self _
  | jump hs | branchTaken hs | branchPassed hs | default hs | ret hs => simp [outEdges, hs]
  | case hs hc =>
    simp only [outEdges, hs, List.mem_append, List.mem_map]
    exact Or.inl ⟨_, hc, rfl⟩

/-- The edges that leave a node are the transfers of control from there. -/
theorem mem_outEdges_iff : e ∈ m.outEdges n ↔ m.Transfer e ∧ e.source = n :=
  ⟨fun h => ⟨transfer_of_mem_outEdges h, source_of_mem_outEdges h⟩, fun ⟨h, hn⟩ => hn ▸ h.mem_outEdges⟩

/-- Control passes on from every node but the exit. -/
theorem outEdges_ne_nil (h : n < m.exit) : m.outEdges n ≠ [] := by
  cases n with
  | zero => exact List.cons_ne_nil _ _
  | succ i =>
    have hi : i < m.body.size := Nat.lt_of_succ_lt_succ h
    obtain ⟨s, hs⟩ : ∃ s, m.stmt? i = some s := ⟨_, by rw [stmt?, Array.getElem?_eq_getElem hi]; rfl⟩
    cases s <;> simp [outEdges, hs]

/-- Except for the cases of a switch, no transfer is there twice. -/
theorem count_outEdges_le (hcase : e.case? = none) : (m.outEdges n).count e ≤ 1 := by
  unfold outEdges
  cases n with
  | zero => exact List.nodup_iff_count_le_one.mp (List.nodup_singleton _) e
  | succ i =>
    dsimp only
    split
    · exact Nat.zero_le _
    · split
      case h_3 x cases d hs =>
        have hnone : e ∉ cases.map fun c => (⟨.switchCase c.1, i + 1, c.2 + 1⟩ : Edge) := by
          intro hmem
          obtain ⟨c, _, rfl⟩ := List.mem_map.mp hmem
          cases hcase
        rw [List.count_append, List.count_eq_zero.mpr hnone, Nat.zero_add]
        exact List.nodup_iff_count_le_one.mp (List.nodup_singleton _) e
      case h_2 => exact List.nodup_iff_count_le_one.mp (by simp) e
      all_goals exact List.nodup_iff_count_le_one.mp (List.nodup_singleton _) e

theorem filterMap_case?_outEdges {x : VarId} {cases : List (Int64 × Nat)} {d : Nat}
    (hs : m.stmt? i = some (.switch x cases d)) :
    (m.outEdges (i + 1)).filterMap Edge.case? = cases.map fun c => (c.1, c.2 + 1) := by
  simp [outEdges, hs, Edge.case?, List.filterMap_map, Function.comp_def]

/-- An edge is listed among all edges as often as at its source. -/
theorem count_edges (m : Method) (e : Edge) : m.edges.count e = (m.outEdges e.source).count e := by
  have hkey : ∀ n ∈ List.range m.numNodes, ∀ a ∈ m.outEdges n, (a == e) = true → n = e.source := by
    intro n _ a ha hae
    rw [← beq_iff_eq.mp hae, source_of_mem_outEdges ha]
  rw [List.count_eq_length_filter, edges, filter_flatMap_eq e.source List.nodup_range hkey]
  split
  · rw [List.count_eq_length_filter]
  · rename_i hn
    rw [outEdges_eq_nil (by unfold exit; simp [numNodes] at hn; omega)]
    rfl

end Method

namespace Cfg

/-- The graph holds the control transfers of its method, each once, with one edge per case of a switch;
what its tables list by source they list by target as often. -/
structure Faithful (g : Cfg) : Prop where
  mem_outEdges : ∀ n e, e ∈ g.outEdges n ↔ g.method.Transfer e ∧ e.source = n
  count_le : ∀ n e, e.case? = none → (g.outEdges n).count e ≤ 1
  cases : ∀ i x cases d, g.method.stmt? i = some (.switch x cases d) →
    (g.outEdges (i + 1)).filterMap Edge.case? = cases.map fun c => (c.1, c.2 + 1)
  target_eq : ∀ n, ∀ e ∈ g.inEdges n, e.target = n
  converse : ∀ e, (g.inEdges e.target).count e = (g.outEdges e.source).count e
  succs_ne_nil : ∀ n < g.method.exit, g.succs n ≠ []
  preds_entry : g.preds 0 = []
  succs_exit : g.succs g.method.exit = []

variable {m : Method}

theorem target_eq_of_mem_inEdges {n : Nat} {e : Edge} (h : e ∈ (ofMethod m).inEdges n) :
    e.target = n := by
  rw [inEdges_ofMethod] at h
  split at h
  · simpa using (List.mem_filter.mp h).2
  · cases h

theorem preds_entry (m : Method) : (ofMethod m).preds 0 = [] := by
  rw [List.eq_nil_iff_forall_not_mem]
  intro k hk
  obtain ⟨e, he, htarget, _⟩ := (mem_preds (Nat.succ_pos _)).mp hk
  exact Method.target_ne_zero_of_mem_outEdges (Method.mem_edges.mp he) htarget

theorem count_inEdges (hm : ∀ e ∈ m.edges, e.target < m.numNodes) (e : Edge) :
    ((ofMethod m).inEdges e.target).count e = ((ofMethod m).outEdges e.source).count e := by
  rw [outEdges_ofMethod, inEdges_ofMethod, ← Method.count_edges]
  split
  · exact List.count_filter (by simp)
  · rename_i ht
    exact (List.count_eq_zero.mpr fun he => ht (hm e he)).symm

theorem faithful_ofMethod (hm : ∀ e ∈ m.edges, e.target < m.numNodes) : (ofMethod m).Faithful where
  mem_outEdges n e := by rw [outEdges_ofMethod, Method.mem_outEdges_iff, method_ofMethod]
  count_le n e he := by
    rw [outEdges_ofMethod]
    exact Method.count_outEdges_le he
  cases i x cases d hs := by
    rw [outEdges_ofMethod]
    exact Method.filterMap_case?_outEdges hs
  target_eq _ _ := target_eq_of_mem_inEdges
  converse := count_inEdges hm
  succs_ne_nil n hn := by
    obtain ⟨e, he⟩ := List.exists_mem_of_ne_nil _ (Method.outEdges_ne_nil hn)
    exact List.ne_nil_of_mem (mem_succs.mpr ⟨e, he, rfl⟩)
  preds_entry := preds_entry m
  succs_exit := succs_eq_nil (Nat.le_refl _)

end Cfg

end WholeProgram
