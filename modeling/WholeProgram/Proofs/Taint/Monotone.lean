import WholeProgram.Proofs.PointsTo.Precision
import WholeProgram.Proofs.Taint.Flows

/-!
# More rules and fewer contexts find more flows

Two problems about one program can be compared by their rules alone. The identifiers of the one are
among those of the other (`TaintSpec.Le`), so its rules are too (`Rules.le_of_resolve`). A map of
contexts takes the rules of taint along (`Coarsening.taints`), so that what solves the larger problem
solves the smaller one when it is pulled back (`solves_preimage`), and the least solution of the
smaller one is below.

`flows_mono` says so of the flows. Neither the order in which identifiers are given nor the order in
which the two runs find their facts plays a part.
-/

namespace WholeProgram

/-- All identifiers of the one problem are identifiers of the other, in any order. -/
structure TaintSpec.Le (spec spec' : TaintSpec) : Prop where
  sources : spec.sources ⊆ spec'.sources
  sinks : spec.sinks ⊆ spec'.sinks
  transfers : spec.transfers ⊆ spec'.transfers

namespace Taint

open PointsTo

variable {p : Program} {opts opts' : Options} {rules rules' : Rules} {X : Set PointsTo.Fact}
  {f : PointsTo.Fact}

/-! ## Rules of a problem -/

section Specs

variable {spec spec' : TaintSpec}

theorem flatMap_subset {α β : Type} {l : List α} {g g' : α → List β} (h : ∀ a, g a ⊆ g' a) :
    l.flatMap g ⊆ l.flatMap g' := by
  intro b hb
  obtain ⟨a, ha, hb⟩ := List.mem_flatMap.mp hb
  exact List.mem_flatMap.mpr ⟨a, ha, h a hb⟩

theorem naming_subset {cs cs' : List CodeIdentifier} (h : cs ⊆ cs') (cls method : String) :
    TaintSpec.naming cs cls method ⊆ TaintSpec.naming cs' cls method :=
  List.filter_subset _ h

/-- More identifiers give more rules. -/
theorem Rules.le_of_resolve (hle : spec.Le spec') (h : Rules.resolve p spec = .ok rules)
    (h' : Rules.resolve p spec' = .ok rules') : rules.Le rules' := by
  unfold Rules.resolve at h h'
  cases hcheck : check spec with
  | error e =>
    rw [hcheck] at h
    cases h
  | ok =>
    cases hcheck' : check spec' with
    | error e =>
      rw [hcheck'] at h'
      cases h'
    | ok =>
      rw [hcheck] at h
      rw [hcheck'] at h'
      cases h
      cases h'
      refine ⟨?_, ?_, ?_⟩
      · exact flatMap_subset fun m => List.map_subset _ (naming_subset hle.sources _ _)
      · exact flatMap_subset fun m =>
          List.map_subset _ (List.map_subset _ (naming_subset hle.sinks _ _))
      · exact flatMap_subset fun m => List.filterMap_subset _ (naming_subset hle.transfers _ _)

end Specs

/-! ## Solutions -/

/-- A map of contexts takes the rules of taint to themselves: taint is made in no context. -/
theorem coarsening_taints {fine coarse : Selector} (h : Coarsening p fine coarse)
    (ht : Taints p rules (Set.preimage h.fact X) f) : Taints p rules X (h.fact f) := by
  cases ht with
  | @source site m s x he hs hm hx =>
    have he : .edge (h.csSite site) (h.csMethod m) ∈ X := he
    rw [Coarsening.fact, Coarsening.heapObj, h.heap_nil]
    exact .source he hs hm hx
  | @transfer site m t v w c source ty he ht hm hv hw hh =>
    have he : .edge (h.csSite site) (h.csMethod m) ∈ X := he
    have hh : .holds (.var (h.csSite site).ctx v) ⟨h.heap c, taintObj source ty⟩ ∈ X := hh
    rw [Coarsening.fact, Coarsening.heapObj, h.heap_nil]
    exact .transfer he ht hm hv hw hh

theorem Taints.of_insert_fault (h : Taints p rules (insert .fault X) f) : Taints p rules X f := by
  cases h with
  | source he hs hm hx => exact .source (he.resolve_left nofun) hs hm hx
  | transfer he ht hm hv hw hh =>
    exact .transfer (he.resolve_left nofun) ht hm hv hw (hh.resolve_left nofun)

/-- What solves a problem solves those with fewer rules or more contexts, but for the calls that
cannot be resolved. -/
theorem solves_preimage (h : Coarsening p opts.selector opts'.selector) (hle : rules.Le rules')
    (hX : Solves p opts' rules' false X) :
    Solves p opts rules false (insert .fault (Set.preimage h.fact X)) := by
  refine ⟨fun f hf => ?_, fun f hf => ?_⟩
  · have hy : Yields p { opts with selector := opts'.selector } false X (h.fact f) :=
      h.yields hf.of_insert_fault
    have hy : h.fact f = .fault ∨ Yields p opts' false X (h.fact f) := hy.of_selector rfl
    rcases hy with hfault | hy
    · exact Or.inl (h.fact_eq_fault hfault)
    · exact Or.inr (hX.closed hy)
  · have ht : Taints p rules X (h.fact f) := coarsening_taints h hf.of_insert_fault
    exact Or.inr (hX.taints (ht.mono subset_rfl hle))

/-! ## Flows -/

variable {spec spec' : TaintSpec} {outcome outcome' : Outcome}

/-- The flows of a problem are flows of each problem with more rules and fewer contexts. -/
theorem flows_subset (hspec : spec.Le spec') (hmap : Coarsening p opts.selector opts'.selector)
    (h : (analyzeProblem p spec opts).start.1 = .ok outcome)
    (h' : (analyzeProblem p spec' opts').start.1 = .ok outcome') : outcome.flows ⊆ outcome'.flows := by
  obtain ⟨rules, w, hrules, hrun, hflows⟩ := analyzeProblem_ok h
  obtain ⟨rules', w', hrules', hrun', hflows'⟩ := analyzeProblem_ok h'
  have hle := Rules.le_of_resolve hspec hrules hrules'
  have hfacts := (facts_isLeast hrun).2 (solves_preimage hmap hle (facts_isLeast hrun').1)
  intro f hf
  rw [hflows] at hf
  rw [hflows']
  obtain ⟨callee, v, hedge, hsink, hv, c, c', ty, hholds⟩ :=
    (Flow.mem_collect (result_core_ok hrun)).mp hf
  obtain ⟨d, d', hedge⟩ := Result.hasEdge_iff.mp hedge
  have hedge' := (hfacts hedge).resolve_left nofun
  have hholds' := (hfacts hholds).resolve_left nofun
  refine (Flow.mem_collect (result_core_ok hrun')).mpr ⟨callee, v, ?_, hle.sinks _ hsink, hv, ?_⟩
  · exact Result.hasEdge_iff.mpr ⟨_, _, hedge'⟩
  · exact ⟨_, _, ty, hholds'⟩

/-- Strictly increasing lists with the same members are the same. -/
theorem Flow.eq_of_pairwise {fs gs : List Flow} (hfs : fs.Pairwise fun f g => List.Lex (· < ·) f.key g.key)
    (hgs : gs.Pairwise fun f g => List.Lex (· < ·) f.key g.key) (hsub : fs ⊆ gs) (hsup : gs ⊆ fs) :
    fs = gs := by
  have hasymm : Std.Asymm (List.Lex (· < · : Nat → Nat → Prop)) := inferInstance
  have hne : ∀ {f g : Flow}, List.Lex (· < ·) f.key g.key → f ≠ g := by
    rintro f g hlt rfl
    exact hasymm.asymm _ _ hlt hlt
  have hperm : fs.Perm gs := (List.perm_ext_iff_of_nodup (hfs.imp hne) (hgs.imp hne)).mpr
    fun f => ⟨fun hf => hsub hf, fun hf => hsup hf⟩
  exact hperm.eq_of_pairwise (fun f g _ _ hlt hgt => absurd hgt (hasymm.asymm _ _ hlt)) hfs hgs

namespace Leak

/-- Also what `trim` returns is a source, and `trim` is as sensitive as `run`. -/
def wider : TaintSpec where
  sources := { cls := "Main", method := "trim" } :: problem.sources
  sinks := problem.sinks ++ [{ cls := "Main", method := "trim", index := 0 }]
  transfers := problem.transfers

def widerFound : Rules where
  sources := [⟨1, some text⟩, ⟨2, some text⟩]
  sinks := [⟨2, 0⟩, ⟨3, 0⟩]
  transfers := [⟨2, .arg 0, .result, some text⟩]

theorem resolve_wider : Rules.resolve program wider = .ok widerFound := by cbv

theorem le_wider : problem.Le wider :=
  ⟨List.subset_cons_self _ _, List.subset_append_left _ _, List.Subset.refl _⟩

/-- The leak is a flow of the problem, whatever the contexts. -/
theorem flow_mem (h : (analyzeProblem program problem opts).start.1 = .ok outcome) :
    ⟨⟨0, 0⟩, ⟨0, 2⟩, 0⟩ ∈ outcome.flows := by
  obtain ⟨rules, w, hrules, hrun, hflows⟩ := analyzeProblem_ok h
  obtain rfl := Except.ok.inj (resolve.symm.trans hrules)
  have hsolves := (facts_isLeast hrun).1
  have hedge := edge_of_call hsolves (i := 2) (k := 3) rfl rfl rfl
  rw [hflows]
  refine (Flow.mem_collect (result_core_ok hrun)).mpr ⟨3, 1, ?_, List.mem_cons_self, rfl, ?_⟩
  · exact Result.hasEdge_iff.mpr ⟨_, _, hedge⟩
  · exact ⟨_, _, _, holds_taint hsolves⟩

end Leak

/-- More rules and fewer contexts hide no flow: a problem that has all sources, sinks and transfers of
another one has all its flows, if it is run with the same selector or a coarser one. The order of the
identifiers makes no difference. -/
theorem flows_mono (hspec : spec.Le spec')
    (hsel : opts'.selector = opts.selector ∨ Finer opts.selector opts'.selector)
    (h : (analyzeProblem p spec opts).start.1 = .ok outcome)
    (h' : (analyzeProblem p spec' opts').start.1 = .ok outcome') :
    (∀ f ∈ outcome.flows, f ∈ outcome'.flows) ∧
      (spec'.Le spec → opts'.selector = opts.selector → outcome'.flows = outcome.flows) := by
  constructor
  · rcases hsel with heq | hfiner
    · exact flows_subset hspec (heq ▸ .refl p _) h h'
    · obtain ⟨hmap⟩ := hfiner.coarsening p
      exact flows_subset hspec hmap h h'
  · intro hback heq
    have hsub := flows_subset hspec (heq ▸ .refl p _) h h'
    have hsup := flows_subset hback (heq ▸ .refl p _) h' h
    obtain ⟨rules, w, -, -, hflows⟩ := analyzeProblem_ok h
    obtain ⟨rules', w', -, -, hflows'⟩ := analyzeProblem_ok h'
    refine Flow.eq_of_pairwise ?_ ?_ hsup hsub
    · rw [hflows']
      exact Flow.pairwise_collect _ _ _
    · rw [hflows]
      exact Flow.pairwise_collect _ _ _

/-- The leak is found with a context for each call, and so it is found without contexts when the
trimmed text counts as a source as well. -/
theorem flows_mono_leak :
    ∃ outcome outcome',
      (analyzeProblem Leak.program Leak.problem { selector := ⟨.callSite, 1, 1⟩ }).start.1 = .ok outcome ∧
      (analyzeProblem Leak.program Leak.wider {}).start.1 = .ok outcome' ∧
      ⟨⟨0, 0⟩, ⟨0, 2⟩, 0⟩ ∈ outcome.flows ∧ ⟨⟨0, 0⟩, ⟨0, 2⟩, 0⟩ ∈ outcome'.flows := by
  obtain ⟨outcome, h⟩ := analyzeProblem_succeeds { selector := ⟨.callSite, 1, 1⟩ } Leak.resolvable
    (by decide) (by decide) Leak.resolve
  obtain ⟨outcome', h'⟩ := analyzeProblem_succeeds {} Leak.resolvable (by decide) (by decide)
    Leak.resolve_wider
  have hleak := Leak.flow_mem h
  exact ⟨outcome, outcome', h, h', hleak, (flows_mono Leak.le_wider (Or.inr .any) h h').1 _ hleak⟩

end Taint

end WholeProgram
