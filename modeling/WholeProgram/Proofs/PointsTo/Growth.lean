import WholeProgram.Proofs.PointsTo.Requests

/-!
# The growth of the call graph and of points-to sets

What the core gains when a method becomes reachable (`gains_addReachable`), when a call edge is
added (`gains_addEdge`) and when an entry of the worklist is taken (`taken_propagate`,
`Taken.gains`).
-/

namespace WholeProgram.PointsTo

namespace Core

variable {p : Program} {opts : Options} {A A' D D' : Set Fact} {K : Set Obj} {s t u : Core}

/-! ## The call graph -/

/-- A fact about the call graph is added; what it leads to is asked for. -/
theorem gains_withGraph (p : Program) (opts : Options) (hs : s.Ok K) {g : CSCallGraph}
    (hg : g.Consistent) {N : Fact} (hflow : ∀ a b, N ≠ .flow a b) (hholds : ∀ q o, N ≠ .holds q o)
    (hfacts : ({ s with graph := g } : Core).facts = insert N s.facts) :
    ({ s with graph := g } : Core).Ok K ∧
      Gains p opts {N} (N.leadsTo p opts) s { s with graph := g } ∧
      N ∈ ({ s with graph := g } : Core).facts := by
  have hold : s.facts ⊆ ({ s with graph := g } : Core).facts := hfacts ▸ Set.subset_insert N s.facts
  have hnew : ∀ f ∈ ({ s with graph := g } : Core).facts, f ∈ s.facts ∨ f = N := fun f hf =>
    (hfacts ▸ hf : f ∈ insert N s.facts).symm
  have hmet : s.met ⊆ ({ s with graph := g } : Core).met := by
    rintro f (hf | hf)
    · exact Or.inl (hold hf)
    · exact Or.inr hf
  refine ⟨⟨⟨hs.tables.objIndex, hs.tables.csObjIndex, hs.tables.valid⟩, hs.listed, hs.objs, hg,
    hs.held, hs.waiting, fun ho => ?_⟩, ⟨⟨id, id⟩, hold, hnew, hmet, ?_, fun f hf => ?_⟩,
    hfacts ▸ Set.mem_insert N s.facts⟩
  · obtain ⟨q, hq⟩ := hs.used ho
    exact ⟨q, hmet hq⟩
  · rintro f (hf | hf)
    · rcases hnew f hf with hf | hf
      · exact Or.inl (Or.inl hf)
      · exact Or.inr (Or.inl hf)
    · exact Or.inl (Or.inr hf)
  · rw [hfacts] at hf
    exact (hf.of_insert hflow hholds).imp_right Or.inr

/-- A method becomes reachable; its statements are asked for. -/
theorem gains_addReachable (p : Program) (opts : Options) (hs : s.Ok K) {m : CSMethod}
    (hm : m ∉ s.graph.reachable) :
    ({ s with graph := (s.graph.addReachable m).1 } : Core).Ok K ∧
      Gains p opts {.reach m} {f | ∃ i, Does p opts m i f} s
        { s with graph := (s.graph.addReachable m).1 } ∧
      .reach m ∈ ({ s with graph := (s.graph.addReachable m).1 } : Core).facts := by
  have hadd := (CallGraph.addReachable_eq hs.graph m).resolve_left fun h => hm h.1
  refine gains_withGraph p opts hs (hs.graph.addReachable m) (by simp) (by simp)
    (Set.ext fun f => ?_)
  rw [hadd.2, Set.mem_insert_iff, or_comm]
  cases f with
  | reach m' => simp [facts, Has]
  | edge site callee => simp [facts, Has, CallGraph.HasEdge]
  | flow a b => simp [facts, Has, succsOf]
  | holds q o => simp [facts, Has, pointsTo, Names]
  | fault => simp [facts, Has]

/-- A call edge is added; its callee and its flows are asked for. -/
theorem gains_addEdge (p : Program) (opts : Options) (hs : s.Ok K) (kind : CallKind)
    {site : CSSite} {m : CSMethod} (hnew : ¬ s.graph.HasEdge site m) :
    ({ s with graph := (s.graph.addEdge kind site m).1 } : Core).Ok K ∧
      Gains p opts {.edge site m} {f | f = .reach m ∨ Links p site m f} s
        { s with graph := (s.graph.addEdge kind site m).1 } ∧
      .edge site m ∈ ({ s with graph := (s.graph.addEdge kind site m).1 } : Core).facts := by
  obtain ⟨joined, outs, ins, hadd⟩ :=
    ((CallGraph.addEdge_eq hs.graph kind site m).resolve_left fun h => hnew h.1).2
  refine gains_withGraph p opts hs (hs.graph.addEdge kind site m) (by simp) (by simp)
    (Set.ext fun f => ?_)
  rw [hadd, Set.mem_insert_iff, or_comm]
  cases f with
  | reach m' => simp [facts, Has]
  | edge site' m' =>
    show CallGraph.HasEdge _ site' m' ↔ CallGraph.HasEdge _ site' m' ∨ _
    simp only [CallGraph.HasEdge, Array.mem_push, Fact.edge.injEq]
    constructor
    · rintro ⟨e, he | rfl, h⟩
      · exact Or.inl ⟨e, he, h⟩
      · exact Or.inr ⟨h.1.symm, h.2.symm⟩
    · rintro (⟨e, he, h⟩ | ⟨rfl, rfl⟩)
      · exact ⟨e, Or.inl he, h⟩
      · exact ⟨_, Or.inr rfl, rfl, rfl⟩
  | flow a b => simp [facts, Has, succsOf]
  | holds q o => simp [facts, Has, pointsTo, Names]
  | fault => simp [facts, Has]

/-! ## Entries of the worklist -/

/-- Objects that wait for every pointer of a list wait in that order. -/
theorem foldl_addPointsTo (s : Core) (ts : List Pointer) (delta : IdSet) :
    ∃ w : Queue (Pointer × IdSet), ts.foldl (fun s q => s.addPointsTo q delta) s =
      { s with waiting := w } ∧
      w.toList = s.waiting.toList ++ ts.map fun q => (q, delta) := by
  induction ts generalizing s with
  | nil => exact ⟨s.waiting, rfl, by simp⟩
  | cons q ts ih =>
    obtain ⟨w, hw, hlist⟩ := ih (s.addPointsTo q delta)
    refine ⟨w, hw, ?_⟩
    rw [hlist]
    simp [addPointsTo]

/-- From `s` to `t` the entry `(q, set)` of the worklist was taken: its objects were added to `q`,
and those that are new wait for the targets of the flows of `q`. -/
structure Taken (q : Pointer) (set : IdSet) (s t : Core) : Prop where
  tables : SameTables s t
  listed : s.Listed → t.Listed
  graph : t.graph = s.graph
  succs : ∀ a, t.succsOf a = s.succsOf a
  sets : ∀ a i, i ∈ t.pointsTo a ↔ i ∈ s.pointsTo a ∨ (a = q ∧ i ∈ set.diff (s.pointsTo q))
  entry : (q, set) ∈ s.waiting.toList
  kept : ∀ x ∈ s.waiting.toList, x = (q, set) ∨ x ∈ t.waiting.toList
  entries : ∀ x ∈ t.waiting.toList, x ∈ s.waiting.toList ∨
    (x.1 ∈ s.succsOf q ∧ x.2 = set.diff (s.pointsTo q))
  served : ∀ i ∈ set.diff (s.pointsTo q), ∀ b ∈ s.succsOf q,
    (b, set.diff (s.pointsTo q)) ∈ t.waiting.toList

/-- The facts of an entry of the worklist that are new to its pointer. -/
def entryFacts (s : Core) (q : Pointer) (delta : IdSet) : Set Fact :=
  {f | ∃ i ∈ delta, ∃ o, s.Names i o ∧ f = .holds q o}

/-- What the rules ask for when objects are new to a pointer: nothing, unless it is a variable. -/
def entryDemands (p : Program) (opts : Options) (s : Core) (q : Pointer) (delta : IdSet) :
    Set Fact :=
  {f | ∃ c v, q = .var c v ∧ ∃ i ∈ delta, ∃ o, s.Names i o ∧ ∃ site, Uses p opts c v o site f}

section Taken

variable {q : Pointer} {set : IdSet}

theorem Taken.delta_names (h : Taken q set s t) (hs : s.Ok K) {i : CSObjId}
    (hi : i ∈ set.diff (s.pointsTo q)) : ∃ o, s.Names i o :=
  hs.waiting h.entry i ((IdSet.mem_diff _ _ _).mp hi).1

/-- The facts are those from before and those of the entry. -/
theorem Taken.mem_facts_iff (h : Taken q set s t) (f : Fact) :
    f ∈ t.facts ↔ f ∈ s.facts ∨ f ∈ entryFacts s q (set.diff (s.pointsTo q)) := by
  cases f with
  | reach m => simp [facts, Has, entryFacts, h.graph]
  | edge site m => simp [facts, Has, entryFacts, h.graph]
  | flow a b => simp [facts, Has, entryFacts, h.succs]
  | fault => simp [facts, Has, entryFacts]
  | holds a o =>
    constructor
    · rintro ⟨i, hi, ho⟩
      rcases (h.sets a i).mp hi with hi | ⟨rfl, hi⟩
      · exact Or.inl ⟨i, hi, h.tables.names ho⟩
      · exact Or.inr ⟨i, hi, o, h.tables.names ho, rfl⟩
    · rintro (⟨i, hi, ho⟩ | ⟨i, hi, o', ho', heq⟩)
      · exact ⟨i, (h.sets a i).mpr (Or.inl hi), h.tables.tableLe.names ho⟩
      · obtain ⟨rfl, rfl⟩ := Fact.holds.inj heq
        exact ⟨i, (h.sets a i).mpr (Or.inr ⟨rfl, hi⟩), h.tables.tableLe.names ho'⟩

/-- A fact that is not about the pointer was held before. -/
theorem Taken.old_fact (h : Taken q set s t) {f : Fact} (hf : f ∈ t.facts)
    (hne : ∀ o, f ≠ .holds q o) :
    f ∈ s.facts := by
  rcases (h.mem_facts_iff f).mp hf with hf | ⟨_, _, o, _, rfl⟩
  · exact hf
  · exact absurd rfl (hne o)

theorem Taken.met_mono (h : Taken q set s t) : s.met ⊆ t.met := by
  rintro f (hf | ⟨a, set', i, o, rfl, ha, hi, ho⟩)
  · exact Or.inl ((h.mem_facts_iff f).mpr (Or.inl hf))
  · rcases h.kept _ ha with heq | ha
    · -- the entry that is taken: its objects are there now
      obtain ⟨rfl, rfl⟩ := Prod.mk.inj heq
      refine Or.inl ⟨i, (h.sets a i).mpr ?_, h.tables.tableLe.names ho⟩
      by_cases hheld : i ∈ s.pointsTo a
      · exact Or.inl hheld
      · exact Or.inr ⟨rfl, (IdSet.mem_diff _ _ _).mpr ⟨hi, hheld⟩⟩
    · exact Or.inr ⟨a, set', i, o, rfl, ha, hi, h.tables.tableLe.names ho⟩

theorem Taken.ok (h : Taken q set s t) (hs : s.Ok K) : t.Ok K where
  tables := h.tables.tables hs.tables
  listed := h.listed hs.listed
  objs := by
    rw [h.tables.objs]
    exact hs.objs
  graph := by
    rw [h.graph]
    exact hs.graph
  held := by
    intro a i hi
    have hvalid : ∃ o, s.Names i o := by
      rcases (h.sets a i).mp hi with hi | ⟨_, hi⟩
      · exact hs.held hi
      · exact h.delta_names hs hi
    obtain ⟨o, ho⟩ := hvalid
    exact ⟨o, h.tables.tableLe.names ho⟩
  waiting := by
    intro a set' ha i hi
    have hvalid : ∃ o, s.Names i o := by
      rcases h.entries _ ha with ha | ⟨_, heq⟩
      · exact hs.waiting ha i hi
      · have heq : set' = set.diff (s.pointsTo q) := heq
        exact h.delta_names hs (heq ▸ hi)
    obtain ⟨o, ho⟩ := hvalid
    exact ⟨o, h.tables.tableLe.names ho⟩
  used := by
    intro i o ho
    obtain ⟨a, ha⟩ := hs.used (h.tables.names ho)
    exact ⟨a, h.met_mono ha⟩

theorem Taken.gains (p : Program) (opts : Options) (h : Taken q set s t) :
    Gains p opts (entryFacts s q (set.diff (s.pointsTo q)))
      (entryDemands p opts s q (set.diff (s.pointsTo q))) s t where
  tables := h.tables.tableLe
  facts := fun f hf => (h.mem_facts_iff f).mpr (Or.inl hf)
  facts_new := fun f hf => (h.mem_facts_iff f).mp hf
  met := h.met_mono
  met_new := by
    rintro f (hf | ⟨a, set', i, o, rfl, ha, hi, ho⟩)
    · rcases (h.mem_facts_iff f).mp hf with hf | hf
      · exact Or.inl (Or.inl hf)
      · exact Or.inr (Or.inl hf)
    · rcases h.entries _ ha with ha | ⟨hb, heq⟩
      · exact Or.inl (Or.inr ⟨a, set', i, o, rfl, ha, hi, h.tables.names ho⟩)
      · -- an entry for a target of a flow
        have heq : set' = set.diff (s.pointsTo q) := heq
        refine Or.inr (Or.inr (.flow (a := q) ?_ ?_))
        · show a ∈ t.succsOf q
          rw [h.succs q]
          exact hb
        · exact ⟨i, (h.sets q i).mpr (Or.inr ⟨rfl, heq ▸ hi⟩), ho⟩
  demands := by
    intro f hf
    cases hf with
    | entry hm => exact Or.inl (.entry hm)
    | stmt hr hd => exact Or.inl (.stmt (h.old_fact hr (by simp)) hd)
    | through hh hu _ =>
      rcases (h.mem_facts_iff _).mp hh with hh | ⟨i, hi, o, ho, heq⟩
      · exact Or.inl (.through hh hu (by simp))
      · obtain ⟨hq, rfl⟩ := Fact.holds.inj heq
        exact Or.inr (Or.inr ⟨_, _, hq.symm, i, hi, _, ho, _, hu⟩)
    | callee he => exact Or.inl (.callee (h.old_fact he (by simp)))
    | link he hl => exact Or.inl (.link (h.old_fact he (by simp)) hl)
    | @flow a b o hab hh =>
      have hab' := h.old_fact hab (by simp)
      rcases (h.mem_facts_iff _).mp hh with hh | ⟨i, hi, o', ho, heq⟩
      · exact Or.inl (.flow hab' hh)
      · obtain ⟨rfl, rfl⟩ := Fact.holds.inj heq
        exact Or.inr (Or.inl (Or.inr ⟨b, _, i, o, rfl, h.served i hi b hab', hi,
          h.tables.tableLe.names ho⟩))

/-- The objects of an entry were promised to its pointer. -/
theorem Taken.promised (h : Taken q set s t) :
    entryFacts s q (set.diff (s.pointsTo q)) ⊆ s.met := by
  rintro f ⟨i, hi, o, ho, rfl⟩
  exact Or.inr ⟨q, set, i, o, rfl, h.entry, ((IdSet.mem_diff _ _ _).mp hi).1, ho⟩

end Taken

/-- What adding objects that are new to a pointer does. -/
theorem propagate_new (s : Core) (q : Pointer) (set : IdSet)
    (hne : (set.diff (s.pointsTo q)).isEmpty = false) :
    ∃ t : Core, s.propagate q set = (t, set.diff (s.pointsTo q)) ∧ SameTables s t ∧
    (s.Listed → t.Listed) ∧
      t.graph = s.graph ∧ (∀ a, t.succsOf a = s.succsOf a) ∧
      (∀ a i, i ∈ t.pointsTo a ↔ i ∈ s.pointsTo a ∨ (a = q ∧ i ∈ set.diff (s.pointsTo q))) ∧
      t.waiting.toList = s.waiting.toList ++
        (s.succsOf q).toList.map fun b => (b, set.diff (s.pointsTo q)) := by
  -- the state before the objects flow on
  let s₁ : Core := ({ s.touch q with
    sets := (s.touch q).sets.insert q (((s.touch q).pointsTo q).union (set.diff (s.pointsTo q))) } :
      Core).note
      (.grew q (set.diff (s.pointsTo q)))
  have htables : SameTables s s₁ := (sameTables_touch s q).trans ⟨rfl, rfl, rfl, rfl⟩
  have hlisted : s.Listed → s₁.Listed := by
    intro hl a ha
    obtain ⟨hl', hq, _⟩ := hl.touch q
    simp only [s₁, note, Std.HashMap.contains_insert, Bool.or_eq_true, beq_iff_eq] at ha
    rcases ha with rfl | ha
    · exact hq
    · exact hl' a ha
  have hsuccs : ∀ a, s₁.succsOf a = s.succsOf a := fun a => touch_succsOf s q a
  have hsets : ∀ a i, i ∈ s₁.pointsTo a ↔ i ∈ s.pointsTo a ∨
    (a = q ∧ i ∈ set.diff (s.pointsTo q)) := by
    intro a i
    have hget : s₁.sets[a]? =
        if q = a then some (((s.touch q).pointsTo q).union (set.diff (s.pointsTo q)))
        else (s.touch q).sets[a]? := by
      simp only [s₁, note, Std.HashMap.getElem?_insert, beq_iff_eq]
    by_cases haq : q = a
    · subst haq
      rw [if_pos rfl] at hget
      rw [pointsTo, hget, Option.getD_some, IdSet.mem_union, touch_pointsTo]
      simp
    · rw [if_neg haq] at hget
      rw [pointsTo, hget, ← pointsTo, touch_pointsTo]
      simp [Ne.symm haq]
  obtain ⟨w, hw, hlist⟩ := foldl_addPointsTo s₁ (s.succsOf q).toList (set.diff (s.pointsTo q))
  have heq : s.propagate q set = ({ s₁ with waiting := w }, set.diff (s.pointsTo q)) := by
    unfold propagate
    simp only [hne, Bool.false_eq_true, if_false]
    rw [← hw, ← Array.foldl_toList, ← hsuccs q]
  refine ⟨_, heq, htables.trans ⟨rfl, rfl, rfl, rfl⟩, hlisted, touch_graph s q, hsuccs, hsets, ?_⟩
  rw [hlist]
  simp [s₁, note]

/-- Taking the first entry of the worklist. -/
theorem taken_propagate {q : Pointer} {set : IdSet} {w : Queue (Pointer × IdSet)}
    (hpop : s.waiting.toList = (q, set) :: w.toList) :
    (({ s with waiting := w } : Core).propagate q set).2 = set.diff (s.pointsTo q) ∧
    Taken q set s (({ s with waiting := w } : Core).propagate q set).1 := by
  have hentry : (q, set) ∈ s.waiting.toList := by
    rw [hpop]
    exact List.mem_cons_self
  have hrest : ∀ x ∈ w.toList, x ∈ s.waiting.toList := by
    intro x hx
    rw [hpop]
    exact List.mem_cons_of_mem _ hx
  cases hempty : (set.diff (s.pointsTo q)).isEmpty with
  | true =>
    have heq : ({ s with waiting := w } : Core).propagate q set =
        ({ s with waiting := w }, set.diff (s.pointsTo q)) := if_pos hempty
    have hnone := (IdSet.isEmpty_iff _).mp hempty
    rw [heq]
    refine ⟨rfl, ⟨rfl, rfl, rfl, rfl⟩, id, rfl, fun _ => rfl, ?_, hentry, ?_,
      fun x hx => Or.inl (hrest x hx), ?_⟩
    · intro a i
      exact ⟨Or.inl, fun h => h.elim id fun h => absurd h.2 (hnone i)⟩
    · intro x hx
      rw [hpop] at hx
      exact List.mem_cons.mp hx
    · intro i hi
      exact absurd hi (hnone i)
  | false =>
    obtain ⟨t, heq, htables, hlisted, hgraph, hsuccs, hsets, hwait⟩ :=
      propagate_new ({ s with waiting := w } : Core) q set hempty
    rw [heq]
    have hwait : t.waiting.toList = w.toList ++
      (s.succsOf q).toList.map fun b => (b, set.diff (s.pointsTo q)) := hwait
    refine ⟨rfl, ⟨htables.objs, htables.objIndex, htables.csObjs, htables.csObjIndex⟩, hlisted,
      hgraph, hsuccs,
      hsets, hentry, ?_, ?_, ?_⟩
    · intro x hx
      rw [hpop] at hx
      rw [hwait]
      exact (List.mem_cons.mp hx).imp_right (List.mem_append_left _)
    · intro x hx
      rw [hwait] at hx
      rcases List.mem_append.mp hx with hx | hx
      · exact Or.inl (hrest x hx)
      · obtain ⟨b, hb, rfl⟩ := List.mem_map.mp hx
        exact Or.inr ⟨Array.mem_toList_iff.mp hb, rfl⟩
    · intro i _ b hb
      rw [hwait]
      exact List.mem_append_right _ (List.mem_map.mpr ⟨b, Array.mem_toList_iff.mpr hb, rfl⟩)

end Core

end WholeProgram.PointsTo
