import Mathlib
import WholeProgram.Proofs.Data.Distinct
import WholeProgram.Proofs.Taint.Exact
import WholeProgram.Taint.Analysis

/-!
# Taint flows are exact

The flows that are read off a run are those of the least solution of the rules, each once and in order
(`flows_exact`):

* `Ordered.lexLe_trans`, `Ordered.lexLe_total`, `Ordered.eq_or_lex_of_lexLe` — the order of lists of
  numbers, by which flows are sorted;
* `Flow.pairwise_collect` — the list of flows is strictly increasing;
* `Flow.mem_collect` — a flow is in the list if a call of a sink has an argument that points to taint.
-/

namespace WholeProgram

/-! ## Sorted lists without duplicates -/

namespace Ordered

theorem lexLe_trans :
    ∀ {as bs cs : List Nat}, lexLe as bs = true → lexLe bs cs = true → lexLe as cs = true
  | [], _, _, _, _ => rfl
  | _ :: _, [], _, h, _ => by cases h
  | _ :: _, _ :: _, [], _, h => by cases h
  | a :: as, b :: bs, c :: cs, h, h' => by
    simp only [lexLe, Bool.or_eq_true, decide_eq_true_eq, Bool.and_eq_true, beq_iff_eq] at h h' ⊢
    rcases h with h | ⟨rfl, h⟩
    · exact Or.inl (h'.elim (fun h' => h.trans h') fun h' => h'.1 ▸ h)
    · exact h'.imp_right fun h' => ⟨h'.1, lexLe_trans h h'.2⟩

theorem lexLe_total : ∀ as bs : List Nat, (lexLe as bs || lexLe bs as) = true
  | [], _ => rfl
  | _ :: _, [] => rfl
  | a :: as, b :: bs => by
    have ih := lexLe_total as bs
    simp only [lexLe, Bool.or_eq_true, decide_eq_true_eq, Bool.and_eq_true, beq_iff_eq] at ih ⊢
    rcases Nat.lt_trichotomy a b with h | rfl | h
    · exact Or.inl (Or.inl h)
    · exact ih.imp (fun h => Or.inr ⟨rfl, h⟩) fun h => Or.inr ⟨rfl, h⟩
    · exact Or.inr (Or.inl h)

/-- Lists in order are equal, or the first place at which they differ tells. -/
theorem eq_or_lex_of_lexLe :
    ∀ {as bs : List Nat}, lexLe as bs = true → as = bs ∨ List.Lex (· < ·) as bs
  | [], [], _ => Or.inl rfl
  | [], _ :: _, _ => Or.inr .nil
  | _ :: _, [], h => by cases h
  | a :: as, b :: bs, h => by
    simp only [lexLe, Bool.or_eq_true, decide_eq_true_eq, Bool.and_eq_true, beq_iff_eq] at h
    rcases h with h | ⟨rfl, h⟩
    · exact Or.inr (.rel h)
    · exact (eq_or_lex_of_lexLe h).imp (congrArg _) .cons

end Ordered

namespace Taint

open PointsTo

variable {p : Program} {opts : Options} {rules : Rules} {r : Result} {v : VarId}

/-! ## The list of flows -/

namespace Flow

theorem key_injective {f g : Flow} (h : f.key = g.key) : f = g := by
  obtain ⟨⟨_, _⟩, ⟨_, _⟩, _⟩ := f
  obtain ⟨⟨_, _⟩, ⟨_, _⟩, _⟩ := g
  simp only [key, List.cons.injEq, and_true] at h
  obtain ⟨rfl, rfl, rfl, rfl, rfl⟩ := h
  rfl

/-- Flows are listed by source call, then by sink call, then by argument, each once. -/
theorem pairwise_collect (p : Program) (r : Result) (rules : Rules) :
    (collect p r rules).Pairwise fun f g => List.Lex (· < ·) f.key g.key := by
  unfold collect
  dsimp only
  generalize r.callGraph.edges.toList.flatMap _ = found
  have hle : (found.eraseDups.mergeSort le).Pairwise fun f g => f.le g = true := by
    refine List.pairwise_mergeSort (fun f g h hfg hgh => ?_) (fun f g => ?_) _
    · exact Ordered.lexLe_trans hfg hgh
    · exact Ordered.lexLe_total f.key g.key
  have hne : (found.eraseDups.mergeSort le).Nodup :=
    (List.mergeSort_perm _ _).nodup_iff.mpr (nodup_eraseDups found)
  refine (hle.and hne).imp fun ⟨hle, hne⟩ => ?_
  exact (Ordered.eq_or_lex_of_lexLe hle).resolve_left fun heq => hne (key_injective heq)

/-- The source calls of a variable are those whose taint it points to in some context. -/
theorem mem_taintsOf (hok : r.core.Ok (objects p rules)) {source : Site} :
    source ∈ taintsOf r v ↔
      ∃ c c' ty, .holds (.var c v) ⟨c', taintObj source ty⟩ ∈ r.core.facts := by
  constructor
  · intro h
    obtain ⟨i, hi, hsource⟩ := List.mem_filterMap.mp h
    obtain ⟨c, c', hholds⟩ := (Result.mayPointTo_iff hok).mp ⟨i, (IdSet.mem_toList _ _).mp hi, rfl⟩
    obtain ⟨j, hj, hnames⟩ := hholds
    have heq := eq_taintObj (hok.objs _ hnames.obj_mem) hsource
    exact ⟨c, c', _, j, hj, by rw [← heq]; exact hnames⟩
  · rintro ⟨c, c', ty, hholds⟩
    obtain ⟨i, hi, hobj⟩ := (Result.mayPointTo_iff hok).mpr ⟨c, c', hholds⟩
    refine List.mem_filterMap.mpr ⟨i, (IdSet.mem_toList _ _).mpr hi, ?_⟩
    rw [hobj]
    rfl

theorem mem_intoSink {site : Site} {s : Sink} {f : Flow} :
    f ∈ intoSink p r site s ↔ f.sink = site ∧ f.index = s.index ∧
      ∃ v, varAt? p site (.arg s.index) = some v ∧ f.source ∈ taintsOf r v := by
  unfold intoSink
  cases hv : varAt? p site (.arg s.index) with
  | none => simp
  | some v =>
    simp only [List.mem_map, Option.some.injEq, exists_eq_left']
    constructor
    · rintro ⟨source, hsource, rfl⟩
      exact ⟨rfl, rfl, hsource⟩
    · rintro ⟨rfl, hindex, hsource⟩
      exact ⟨f.source, hsource, by rw [← hindex]⟩

/-- A flow is listed if its sink call may run a method with that sink, and in some context the argument
points to taint of the source call. -/
theorem mem_collect (hok : r.core.Ok (objects p rules)) {f : Flow} :
    f ∈ collect p r rules ↔ ∃ callee v, r.callGraph.HasEdge f.sink callee ∧
      ⟨callee, f.index⟩ ∈ rules.sinks ∧ varAt? p f.sink (.arg f.index) = some v ∧
      ∃ c c' ty, .holds (.var c v) ⟨c', taintObj f.source ty⟩ ∈ r.core.facts := by
  have hmem : f ∈ collect p r rules ↔ ∃ e ∈ r.callGraph.edges, ∃ s ∈ rules.sinksOf e.callee,
      f ∈ intoSink p r e.site s := by
    simp [collect, List.mem_mergeSort, List.mem_eraseDups]
  rw [hmem]
  constructor
  · rintro ⟨e, he, s, hs, hf⟩
    obtain ⟨hsink, hindex, v, hv, hsource⟩ := mem_intoSink.mp hf
    obtain ⟨hs, hm⟩ : s ∈ rules.sinks ∧ s.method = e.callee := by simpa using List.mem_filter.mp hs
    refine ⟨e.callee, v, ⟨e, he, hsink.symm, rfl⟩, ?_, ?_, (mem_taintsOf hok).mp hsource⟩
    · rw [hindex, ← hm]
      exact hs
    · rw [hsink, hindex]
      exact hv
  · rintro ⟨callee, v, ⟨e, he, hsink, hcallee⟩, hs, hv, hsource⟩
    refine ⟨e, he, ⟨callee, f.index⟩, List.mem_filter.mpr ⟨hs, by simp [hcallee]⟩, ?_⟩
    rw [hsink]
    exact mem_intoSink.mpr ⟨rfl, rfl, v, hv, (mem_taintsOf hok).mpr hsource⟩

end Flow

/-! ## Problems -/

variable {spec : TaintSpec} {outcome : Outcome}

/-- The outcome of a problem is that of a run with the rules of the problem. -/
theorem analyzeProblem_ok (h : (analyzeProblem p spec opts).start.1 = .ok outcome) :
    ∃ rules w, Rules.resolve p spec = .ok rules ∧
      (analyzeWith p opts (plugin p rules)).start.1 = .ok (outcome.pointers, w) ∧
      outcome.flows = Flow.collect p outcome.pointers rules := by
  unfold analyzeProblem at h
  cases hrules : Rules.resolve p spec with
  | error e =>
    rw [hrules] at h
    cases h
  | ok rules =>
    rw [hrules] at h
    have hmap : (analyzeWith p opts (plugin p rules)).start.1.map
        (fun r => (⟨Flow.collect p r.1 rules, r.1⟩ : Outcome)) = .ok outcome :=
      (Logged.start_map _ _).symm.trans h
    cases hrun : (analyzeWith p opts (plugin p rules)).start.1 with
    | error e =>
      rw [hrun] at hmap
      cases hmap
    | ok r =>
      rw [hrun] at hmap
      cases hmap
      exact ⟨rules, r.2, rfl, hrun, rfl⟩

/-- Taint needs no callees, so that the rules of taint lead to no fault. -/
theorem solves_faultless (h : Resolvable p) : Solves p opts rules false (faultless p) := by
  refine ⟨closed_faultless h, fun f hf => ?_⟩
  cases hf with
  | source | transfer => exact Or.inr rfl

/-- A problem about a program whose calls can all be resolved has an outcome. -/
theorem analyzeProblem_succeeds (opts : Options) (h : Resolvable p) (hentries : p.entries ≠ [])
    (hlimit : opts.limit ≤ 0) (hrules : Rules.resolve p spec = .ok rules) :
    ∃ outcome, (analyzeProblem p spec opts).start.1 = .ok outcome := by
  have hsolves : Solves p opts rules false (faultless p) := solves_faultless h
  obtain ⟨r, w, hrun⟩ := analyzeWith_succeeds hentries hlimit hsolves id
  have heq : (analyzeProblem p spec opts).start.1 = (analyzeWith p opts (plugin p rules)).start.1.map
      fun r => (⟨Flow.collect p r.1 rules, r.1⟩ : Outcome) := by
    unfold analyzeProblem
    rw [hrules]
    exact Logged.start_map _ _
  rw [heq, hrun]
  exact ⟨_, rfl⟩

/-! ## A leak -/

namespace Leak

def text : Ty := .ref 1

/-- `main` gets a text from `read`, has it trimmed by `trim`, and hands the result to `run`. -/
def program : Program where
  classes := #[
    { name := "Main", super := none, isAbstract := false, isInterface := false, methods := #[0, 1, 2, 3] },
    { name := "Text", super := none, isAbstract := false, isInterface := false, methods := #[] }]
  fields := #[]
  vars := #[
    { name := "input", ty := text, method := 0, index := 0 },
    { name := "clean", ty := text, method := 0, index := 1 },
    { name := "t", ty := text, method := 2, index := 0 },
    { name := "command", ty := text, method := 3, index := 0 }]
  methods := #[
    { name := "main", cls := 0, isStatic := true, isAbstract := false, subsig := "main()",
      returns := none, receiver := none, params := #[], vars := #[0, 1], pos := none,
      body := #[
        { stmt := .invoke (some 0) ⟨.static, ⟨0, "read", "read()"⟩, none, []⟩, pos := none },
        { stmt := .invoke (some 1) ⟨.static, ⟨0, "trim", "trim(Text)"⟩, none, [0]⟩, pos := none },
        { stmt := .invoke none ⟨.static, ⟨0, "run", "run(Text)"⟩, none, [1]⟩, pos := none }] },
    { name := "read", cls := 0, isStatic := true, isAbstract := false, subsig := "read()",
      returns := some text, receiver := none, params := #[], vars := #[], pos := none, body := #[] },
    { name := "trim", cls := 0, isStatic := true, isAbstract := false, subsig := "trim(Text)",
      returns := some text, receiver := none, params := #[2], vars := #[2], pos := none, body := #[] },
    { name := "run", cls := 0, isStatic := true, isAbstract := false, subsig := "run(Text)",
      returns := none, receiver := none, params := #[3], vars := #[3], pos := none, body := #[] }]
  entries := [0]

/-- What `read` returns is tainted, `trim` passes taint on, and `run` is sensitive. -/
def problem : TaintSpec where
  sources := [{ cls := "Main", method := "read" }]
  sinks := [{ cls := "Main", method := "run", index := 0 }]
  transfers := [{ cls := "Main", method := "trim", source := "0", target := "result" }]

def found : Rules where
  sources := [⟨1, some text⟩]
  sinks := [⟨3, 0⟩]
  transfers := [⟨2, .arg 0, .result, some text⟩]

theorem resolve : Rules.resolve program problem = .ok found := by cbv

theorem resolvable : Resolvable program := by decide

variable {X : Set PointsTo.Fact}

theorem reach_main (hX : Solves program opts found false X) : .reach ⟨[], 0⟩ ∈ X :=
  hX.closed (.entry List.mem_cons_self)

/-- A static call of `main` runs its one callee. -/
theorem edge_of_call (hX : Solves program opts found false X) {i : Nat} {x : Option VarId} {call : Call}
    {k : MethodId} (hstmt : program.stmt? ⟨0, i⟩ = some (.invoke x call)) (hbase : call.base = none)
    (hres : program.resolve ⟨0, i⟩ call = .ok ⟨[k], none⟩) :
    .edge ⟨[], ⟨0, i⟩⟩ ⟨opts.selector.staticContext [] ⟨0, i⟩, k⟩ ∈ X :=
  hX.closed (.stmt (reach_main hX) (.call hstmt hbase hres List.mem_cons_self))

/-- What `main` hands to `run` is tainted by its call of `read`. -/
theorem holds_taint (hX : Solves program opts found false X) :
    .holds (.var [] 1) ⟨[], taintObj ⟨0, 0⟩ (some text)⟩ ∈ X := by
  have hread := edge_of_call hX (i := 0) (k := 1) rfl rfl rfl
  have htrim := edge_of_call hX (i := 1) (k := 2) rfl rfl rfl
  have hsource : ⟨1, some text⟩ ∈ found.sources := List.mem_cons_self
  have hinput : .holds (.var [] 0) ⟨[], taintObj ⟨0, 0⟩ (some text)⟩ ∈ X :=
    hX.taints (.source hread hsource rfl rfl)
  have hpass : ⟨2, .arg 0, .result, some text⟩ ∈ found.transfers := List.mem_cons_self
  exact hX.taints (.transfer htrim hpass rfl rfl rfl hinput)

end Leak

/-- The flows of a problem are exactly those of the least solution of the rules of the pointer analysis
and of taint, in strictly increasing order. -/
theorem flows_exact (h : (analyzeProblem p spec opts).start.1 = .ok outcome) :
    ∃ rules, Rules.resolve p spec = .ok rules ∧
      IsLeast {X | Solves p opts rules false X} outcome.pointers.core.facts ∧
      (OwnVars p → OwnPositions p → IsLeast {X | Solves p opts rules true X} outcome.pointers.core.facts) ∧
      (∀ f, f ∈ outcome.flows ↔ ∃ callee v, outcome.pointers.callGraph.HasEdge f.sink callee ∧
        ⟨callee, f.index⟩ ∈ rules.sinks ∧ varAt? p f.sink (.arg f.index) = some v ∧
        ∃ c c' ty, .holds (.var c v) ⟨c', taintObj f.source ty⟩ ∈ outcome.pointers.core.facts) ∧
      outcome.flows.Pairwise fun f g => List.Lex (· < ·) f.key g.key := by
  obtain ⟨rules, w, hrules, hrun, hflows⟩ := analyzeProblem_ok h
  have hleast := facts_isLeast hrun
  refine ⟨rules, hrules, hleast, fun hvars hown => isLeast_solves_guarded hvars hown hleast, ?_, ?_⟩
  · rw [hflows]
    exact fun f => Flow.mem_collect (result_core_ok hrun)
  · rw [hflows]
    exact Flow.pairwise_collect _ _ _

/-- The taint of the text that is read reaches the command. -/
theorem flows_exact_leak :
    ∃ outcome, (analyzeProblem Leak.program Leak.problem {}).start.1 = .ok outcome ∧
      ⟨⟨0, 0⟩, ⟨0, 2⟩, 0⟩ ∈ outcome.flows := by
  obtain ⟨outcome, h⟩ := analyzeProblem_succeeds {} Leak.resolvable (by decide) (by decide) Leak.resolve
  obtain ⟨rules, hrules, hleast, -, hflows, -⟩ := flows_exact h
  obtain rfl := Except.ok.inj (Leak.resolve.symm.trans hrules)
  have hedge := Leak.edge_of_call hleast.1 (i := 2) (k := 3) rfl rfl rfl
  refine ⟨outcome, h, (hflows _).mpr ⟨3, 1, Result.hasEdge_iff.mpr ⟨_, _, hedge⟩, ?_, rfl, ?_⟩⟩
  · exact List.mem_cons_self
  · exact ⟨_, _, _, Leak.holds_taint hleast.1⟩

end Taint

end WholeProgram
