import WholeProgram.Proofs.Dataflow.Liveness

/-!
# Live variables and paths

A variable is live at a node if some path from there reads it before a statement of the path writes it.

* `ReadAhead` — this, said of the paths of the control-flow graph;
* `readAhead_iff` — what it comes to at one node;
* `mem_output_of_readAhead` — what the analysis finds is closed under it, by induction on the path;
* `bounds_awaited` — the variables that are read ahead bound the system of the analysis, so that its
  least solution has no others;
* `live_iff_readAhead` — the analysis finds these variables and no others.
-/

namespace WholeProgram

/-- Nodes of which each is a successor of the one before it. -/
def Cfg.IsPath (g : Cfg) (path : List Nat) : Prop := path.IsChain fun a b => b ∈ g.succs a

namespace IdSet

theorem mem_foldl_sup {ι : Type} (f : ι → IdSet) (l : List ι) (s : IdSet) (v : Nat) :
    v ∈ l.foldl (fun acc k => acc ⊔ f k) s ↔ v ∈ s ∨ ∃ k ∈ l, v ∈ f k := by
  induction l generalizing s with
  | nil => simp
  | cons k l ih =>
    have hsup : v ∈ s ⊔ f k ↔ v ∈ s ∨ v ∈ f k := mem_union _ _ _
    rw [List.foldl_cons, ih, hsup]
    simp only [List.mem_cons, exists_eq_or_imp]
    tauto

end IdSet

namespace Liveness

variable {m : Method} {n k : Nat} {v : VarId}

/-- Some path from the node leads to a statement that reads the variable, and no statement before that
writes it. -/
def ReadAhead (m : Method) (n : Nat) (v : VarId) : Prop :=
  ∃ (before : List Nat) (last : Nat),
    (Cfg.ofMethod m).IsPath (before ++ [last]) ∧ (before ++ [last]).head? = some n ∧
      v ∈ (m.stmtAt last).uses ∧ ∀ i ∈ before, (m.stmtAt i).defined? ≠ some v

theorem ReadAhead.of_uses (h : v ∈ (m.stmtAt n).uses) : ReadAhead m n v :=
  ⟨[], n, List.isChain_singleton n, rfl, h, fun _ hi => absurd hi List.not_mem_nil⟩

/-- A path from a successor is one from the node. -/
theorem ReadAhead.of_succ (hsucc : k ∈ (Cfg.ofMethod m).succs n) (h : ReadAhead m k v)
    (hdef : (m.stmtAt n).defined? ≠ some v) : ReadAhead m n v := by
  obtain ⟨before, last, hpath, hhead, huse, hbefore⟩ := h
  refine ⟨n :: before, last, List.isChain_cons.mpr ⟨fun j hj => ?_, hpath⟩, rfl, huse, ?_⟩
  · obtain rfl := Option.some.inj (hhead.symm.trans hj)
    exact hsucc
  · exact List.forall_mem_cons.mpr ⟨hdef, hbefore⟩

/-- A variable is read ahead of a node if its statement reads it, or does not write it and leads to where
it is read ahead. -/
theorem readAhead_iff : ReadAhead m n v ↔ v ∈ (m.stmtAt n).uses ∨
    (m.stmtAt n).defined? ≠ some v ∧ ∃ k ∈ (Cfg.ofMethod m).succs n, ReadAhead m k v := by
  constructor
  · rintro ⟨_ | ⟨i, before⟩, last, hpath, hhead, huse, hbefore⟩
    · obtain rfl := Option.some.inj hhead
      exact Or.inl huse
    · obtain rfl := Option.some.inj hhead
      have hne : before ++ [last] ≠ [] := List.append_ne_nil_of_right_ne_nil _ (List.cons_ne_nil _ _)
      obtain ⟨hstep, hrest⟩ := List.isChain_cons.mp hpath
      obtain ⟨hdef, hbefore⟩ := List.forall_mem_cons.mp hbefore
      have hnext := List.head?_eq_some_head hne
      exact Or.inr ⟨hdef, _, hstep _ hnext, before, last, hrest, hnext, huse, hbefore⟩
  · rintro (huse | ⟨hdef, k, hsucc, h⟩)
    · exact .of_uses huse
    · exact h.of_succ hsucc hdef

/-! ## What the analysis finds -/

theorem mem_input {s : Facts IdSet} : v ∈ (systemOf m).input s n ↔
    ∃ k ∈ (Cfg.ofMethod m).succs n, v ∈ s.output k := by
  rw [input_eq, IdSet.mem_foldl_sup]
  exact or_iff_right (IdSet.not_mem_empty v)

variable {s : Facts IdSet}

/-- Beyond the statements no variable is live. -/
theorem facts_eq_empty (h : (systemOf m).Outcome s) (hn : m.exit ≤ n) :
    s.input n = ∅ ∧ s.output n = ∅ := by
  have hinv := h.inv (lawful m)
  rcases Nat.lt_or_ge n m.numNodes with hlt | hge
  · have hexit : n = m.exit := by
      unfold Method.numNodes at hlt
      unfold Method.exit at hn ⊢
      omega
    exact hinv.boundary n hlt (by simp [system, hexit])
  · exact ⟨Facts.input_eq_default (hinv.size_ins.trans_le hge),
      Facts.output_eq_default (hinv.size_outs.trans_le hge)⟩

/-- After a node the variables are live that are live before one of its successors. -/
theorem mem_input_of_outcome (h : (systemOf m).Outcome s) :
    v ∈ s.input n ↔ ∃ k ∈ (Cfg.ofMethod m).succs n, v ∈ s.output k := by
  rcases Nat.lt_or_ge n m.exit with hn | hn
  · rw [(h.solves (lawful m)).input n (Nat.lt_succ_of_lt hn) (isBoundary_eq_false.mpr hn.ne), mem_input]
  · rw [(facts_eq_empty h hn).1, Cfg.succs_eq_nil hn]
    simp [IdSet.not_mem_empty]

/-- Before a node the variables are live that its statement reads, and those live after it that it does
not write. -/
theorem mem_output_of_outcome (h : (systemOf m).Outcome s) :
    v ∈ s.output n ↔ v ∈ (m.stmtAt n).uses ∨ v ∈ s.input n ∧ (m.stmtAt n).defined? ≠ some v := by
  rcases Nat.lt_or_ge n m.exit with hn | hn
  · rw [(h.solves (lawful m)).output n (Nat.lt_succ_of_lt hn) (isBoundary_eq_false.mpr hn.ne)]
    exact mem_transfer
  · have hnop : m.stmtAt n = .nop := by
      by_contra hne
      exact Nat.not_lt.mpr hn (Method.lt_exit_of_stmtAt_ne hne)
    obtain ⟨hinput, houtput⟩ := facts_eq_empty h hn
    simp [hinput, houtput, hnop, Stmt.uses, IdSet.not_mem_empty]

/-- What is read ahead is found to be live, by induction on the path. -/
theorem mem_output_of_readAhead (h : (systemOf m).Outcome s) (hahead : ReadAhead m n v) :
    v ∈ s.output n := by
  obtain ⟨before, last, hpath, hhead, huse, hbefore⟩ := hahead
  induction before generalizing n with
  | nil =>
    obtain rfl := Option.some.inj hhead
    exact (mem_output_of_outcome h).mpr (Or.inl huse)
  | cons i before ih =>
    obtain rfl := Option.some.inj hhead
    have hne : before ++ [last] ≠ [] := List.append_ne_nil_of_right_ne_nil _ (List.cons_ne_nil _ _)
    obtain ⟨hstep, hrest⟩ := List.isChain_cons.mp hpath
    obtain ⟨hdef, hbefore⟩ := List.forall_mem_cons.mp hbefore
    have hnext := List.head?_eq_some_head hne
    have hlive := ih hrest hnext hbefore
    exact (mem_output_of_outcome h).mpr
      (Or.inr ⟨(mem_input_of_outcome h).mpr ⟨_, hstep _ hnext, hlive⟩, hdef⟩)

/-! ## The least solution -/

open Classical in
/-- The variables of the method of which something holds. -/
noncomputable def varsWhere (m : Method) (P : VarId → Prop) : IdSet :=
  .ofList (m.mentioned.filter fun v => decide (P v))

theorem mem_varsWhere {P : VarId → Prop} : v ∈ varsWhere m P ↔ v ∈ m.mentioned ∧ P v := by
  simp [varsWhere, IdSet.mem_ofList]

theorem ReadAhead.mem_mentioned (h : ReadAhead m n v) : v ∈ m.mentioned := by
  obtain ⟨_, _, _, _, huse, _⟩ := h
  exact Method.mem_mentioned (Or.inr huse)

/-- The facts that list what is read ahead. -/
noncomputable def awaited (m : Method) : Facts IdSet :=
  .ofFns m.numNodes (fun n => varsWhere m fun v => ∃ k ∈ (Cfg.ofMethod m).succs n, ReadAhead m k v)
    fun n => varsWhere m (ReadAhead m n)

theorem mem_input_awaited (hn : n < m.numNodes) :
    v ∈ (awaited m).input n ↔ ∃ k ∈ (Cfg.ofMethod m).succs n, ReadAhead m k v := by
  rw [awaited, Facts.input_ofFns _ _ hn, mem_varsWhere]
  exact and_iff_right_of_imp fun ⟨_, _, hahead⟩ => hahead.mem_mentioned

theorem mem_output_awaited (hn : n < m.numNodes) : v ∈ (awaited m).output n ↔ ReadAhead m n v := by
  rw [awaited, Facts.output_ofFns _ _ hn, mem_varsWhere]
  exact and_iff_right_of_imp ReadAhead.mem_mentioned

theorem readAhead_of_mem_awaited (h : v ∈ (awaited m).output n) : ReadAhead m n v := by
  by_cases hn : n < m.numNodes
  · exact (mem_output_awaited hn).mp h
  · rw [Facts.output_eq_default (by simpa [awaited, Facts.ofFns] using hn)] at h
    exact absurd h (IdSet.not_mem_empty v)

theorem bounds_awaited (m : Method) : (systemOf m).Bounds (awaited m) where
  boundary _ _ _ := bot_le
  input n hn _ := by
    intro v hv
    obtain ⟨k, hsucc, hk⟩ := mem_input.mp hv
    exact (mem_input_awaited hn).mpr ⟨k, hsucc, readAhead_of_mem_awaited hk⟩
  output n hn _ := by
    intro v hv
    refine (mem_output_awaited hn).mpr ?_
    rcases mem_transfer.mp hv with huse | ⟨hafter, hdef⟩
    · exact .of_uses huse
    · obtain ⟨k, hsucc, hahead⟩ := (mem_input_awaited hn).mp hafter
      exact hahead.of_succ hsucc hdef

theorem mem_output_iff_readAhead (h : (systemOf m).Outcome s) : v ∈ s.output n ↔ ReadAhead m n v :=
  ⟨fun hv => readAhead_of_mem_awaited ((h.below (lawful m) (bounds_awaited m)).output n v hv),
    mem_output_of_readAhead h⟩

/-- The analysis has a result where its visits are not limited, and whatever it returns, the variables
that are live before a node are those that some path from it reads before it writes them; those live
after it are live before one of its successors. -/
theorem live_iff_readAhead (p : Program) (k : MethodId) (limit : Int) :
    (limit ≤ 0 → ∃ live, (analyze p k limit).start.1 = .ok live) ∧
    ∀ live, (analyze p k limit).start.1 = .ok live → ∀ n v,
      (v ∈ live.inFact n ↔ ReadAhead (p.method k) n v) ∧
      (v ∈ live.outFact n ↔ ∃ s ∈ (Cfg.ofMethod (p.method k)).succs n, v ∈ live.inFact s) := by
  refine ⟨analyze_succeeds p k, fun live hlive n v => ?_⟩
  have hout := outcome_of_ok hlive
  exact ⟨mem_output_iff_readAhead hout, mem_input_of_outcome hout⟩

/-- In the loop of the countdown, its step is live around the back edge, the counter is live where it is
read and written at once, and the quotient is live nowhere. -/
theorem live_iff_readAhead_countdown : ∃ live,
    (analyze Countdown.program 0 0).start.1 = .ok live ∧
      1 ∈ live.outFact 4 ∧ ¬ 1 ∈ live.inFact 1 ∧ 0 ∈ live.inFact 3 ∧ ∀ n, ¬ 2 ∈ live.inFact n := by
  obtain ⟨hok, hpaths⟩ := live_iff_readAhead Countdown.program 0 0
  obtain ⟨live, hlive⟩ := hok (Int.le_refl 0)
  have hin := fun n v => (hpaths live hlive n v).1
  have hout := fun n v => (hpaths live hlive n v).2
  refine ⟨live, hlive, ?_, ?_, ?_, fun n => ?_⟩
  · have hback : 2 ∈ (Cfg.ofMethod (Countdown.program.method 0)).succs 4 := Cfg.mem_succs.mpr (by decide)
    exact (hout 4 1).mpr ⟨2, hback, (hin 2 1).mpr (.of_uses (by decide))⟩
  · rw [hin, readAhead_iff]
    rintro (huse | ⟨hdef, _⟩)
    · exact absurd huse (by decide)
    · exact hdef (by decide)
  · exact (hin 3 0).mpr (.of_uses (by decide))
  · rw [hin]
    rintro ⟨_, last, _, _, huse, _⟩
    have hunread : ∀ i < (Countdown.program.method 0).exit,
        ¬ 2 ∈ ((Countdown.program.method 0).stmtAt i).uses := by decide
    refine hunread last (Method.lt_exit_of_stmtAt_ne fun hnop => ?_) huse
    rw [hnop] at huse
    exact List.not_mem_nil huse

end Liveness

end WholeProgram
