import WholeProgram.Config.Settings
import WholeProgram.Taint.Rules
import WholeProgram.Taint.Summaries
import WholeProgram.Proofs.Log

/-!
# The loader and the analyses check alike

A configuration is checked where it is loaded, and again by each analysis that is given one: by the
choice of a context selector, and by the resolution of taint problems against a program, which may also
be given problems that no loader has seen.

* `TaintSpec.Valid` — what a problem is to satisfy;
* `exists_compile_iff`, `exists_resolve_iff` — the loader compiles such problems, and the taint analysis
  resolves them over every program, and no others;
* `valid_of_compile`, `valid_withSummaries` — compiling a problem, and adding the transfers of the known
  functions to it, leave it so;
* `Config.accepted_of_loadWith` — what the loader lets through, whatever the text says or leaves out, and
  whichever decoder reads it;
* `Config.validators_agree` — the analyses accept all of it.
-/

namespace WholeProgram

/-! ## Computations that may fail -/

section

variable {ε α β : Type}

theorem exists_of_isOk {x : Except ε α} (h : x.isOk = true) : ∃ a, x = .ok a := by
  cases x with
  | error e => cases h
  | ok a => exact ⟨a, rfl⟩

/-- Everything but a result is an error. -/
theorem exists_error_iff {x : Except ε α} : (∃ e, x = .error e) ↔ ¬ ∃ a, x = .ok a := by
  cases x with
  | error e => exact ⟨fun _ => nofun, fun _ => ⟨e, rfl⟩⟩
  | ok a => exact ⟨nofun, fun h => absurd ⟨a, rfl⟩ h⟩

/-- A loop that checks the members of a list runs through if it goes on after each of them. -/
theorem forIn_eq_ok {f : α → Except ε (ForInStep Unit)} (hf : ∀ a, f a ≠ .ok (.done ())) (l : List α) :
    (forIn l () fun a _ => f a) = .ok () ↔ ∀ a ∈ l, f a = .ok (.yield ()) := by
  induction l with
  | nil => exact ⟨nofun, fun _ => rfl⟩
  | cons a l ih =>
    rw [List.forIn_cons, bind_eq_ok, List.forall_mem_cons, ← ih]
    constructor
    · rintro ⟨step, hstep, hrest⟩
      cases step with
      | done => exact absurd hstep (hf a)
      | yield => exact ⟨hstep, hrest⟩
    · rintro ⟨hstep, hrest⟩
      exact ⟨_, hstep, hrest⟩

/-- What a list is mapped to has been computed from its members. -/
theorem exists_of_mem_mapM {f : α → Except ε β} {l : List α} {bs : List β} (h : l.mapM f = .ok bs)
    {b : β} (hb : b ∈ bs) : ∃ a ∈ l, f a = .ok b := by
  induction l generalizing bs with
  | nil =>
    obtain rfl := Except.ok.inj (List.mapM_nil.symm.trans h)
    cases hb
  | cons a l ih =>
    rw [List.mapM_cons, bind_eq_ok] at h
    obtain ⟨b', hb', h⟩ := h
    obtain ⟨bs', hbs', h⟩ := bind_eq_ok.mp h
    obtain rfl := Except.ok.inj h
    rcases List.mem_cons.mp hb with rfl | hb
    · exact ⟨a, List.mem_cons_self, hb'⟩
    · obtain ⟨a', ha', hfa⟩ := ih hbs' hb
      exact ⟨a', List.mem_cons_of_mem a ha', hfa⟩

end

/-! ## Taint problems -/

namespace CodeIdentifier

/-- The positions of a transfer exist. -/
def HasPositions (c : CodeIdentifier) : Prop :=
  (∃ source, c.sourcePosition = .ok source) ∧ ∃ target, c.targetPosition = .ok target

/-- Compiling an identifier leaves its numbers and positions as they are. -/
theorem compile_keeps (c : CodeIdentifier) :
    c.compile.index = c.index ∧ c.compile.source = c.source ∧ c.compile.target = c.target := by
  unfold compile
  split <;> exact ⟨rfl, rfl, rfl⟩

theorem hasPositions_compile {c : CodeIdentifier} : c.compile.HasPositions ↔ c.HasPositions := by
  obtain ⟨-, hsource, htarget⟩ := c.compile_keeps
  unfold HasPositions sourcePosition targetPosition
  rw [hsource, htarget]

end CodeIdentifier

namespace TaintSpec

/-- The sensitive arguments of a problem are counted from zero, and the positions of its transfers
exist. -/
structure Valid (t : TaintSpec) : Prop where
  sinks : ∀ c ∈ t.sinks, 0 ≤ c.index
  transfers : ∀ c ∈ t.transfers, c.HasPositions

variable {t t' : TaintSpec}

theorem checkTransfer_eq_ok {c : CodeIdentifier} : checkTransfer c = .ok () ↔ c.HasPositions := by
  unfold checkTransfer CodeIdentifier.HasPositions
  cases c.sourcePosition with
  | error e => exact ⟨nofun, nofun⟩
  | ok source =>
    cases c.targetPosition with
    | error e => exact ⟨nofun, nofun⟩
    | ok target => exact ⟨fun _ => ⟨⟨source, rfl⟩, target, rfl⟩, fun _ => rfl⟩

/-- A loop that checks the arguments of sinks, whatever it says of a bad one. -/
theorem forIn_sinks_eq_ok (sinks : List CodeIdentifier) (message : CodeIdentifier → String) :
    (forIn sinks () fun c _ =>
      if c.index < 0 then do
        throw (message c)
        pure (ForInStep.yield ())
      else (pure (ForInStep.yield ()) : Except String _)) = .ok () ↔
      ∀ c ∈ sinks, 0 ≤ c.index := by
  refine (forIn_eq_ok ?_ sinks).trans ?_
  · intro c
    by_cases hc : c.index < 0
    · rw [if_pos hc]
      nofun
    · rw [if_neg hc]
      nofun
  · refine forall_congr' fun c => imp_congr_right fun _ => ?_
    by_cases hc : c.index < 0
    · rw [if_pos hc]
      exact ⟨nofun, fun h => absurd hc (Int.not_lt.mpr h)⟩
    · rw [if_neg hc]
      exact ⟨fun _ => Int.not_lt.mp hc, fun _ => rfl⟩

/-- A loop that checks the positions of transfers. -/
theorem forIn_transfers_eq_ok (transfers : List CodeIdentifier) :
    (forIn transfers () fun c _ => do
      checkTransfer c
      pure (ForInStep.yield ())) = .ok () ↔ ∀ c ∈ transfers, c.HasPositions := by
  refine (forIn_eq_ok ?_ transfers).trans ?_
  · intro c h
    obtain ⟨_, _, h⟩ := bind_eq_ok.mp h
    cases h
  · refine forall_congr' fun c => imp_congr_right fun _ => ?_
    rw [← checkTransfer_eq_ok, bind_eq_ok]
    exact ⟨fun ⟨_, h, _⟩ => h, fun h => ⟨(), h, rfl⟩⟩

/-- The loader compiles the valid problems, and what comes of them has the compiled identifiers. -/
theorem compile_eq_ok : t.compile = .ok t' ↔ t.Valid ∧ t' =
    { sources := t.sources.map (·.compile), sinks := t.sinks.map (·.compile)
      transfers := t.transfers.map (·.compile) } := by
  unfold compile
  rw [bind_eq_ok]
  constructor
  · rintro ⟨_, hsinks, h⟩
    obtain ⟨_, htransfers, h⟩ := bind_eq_ok.mp h
    exact ⟨⟨(forIn_sinks_eq_ok _ _).mp hsinks, (forIn_transfers_eq_ok _).mp htransfers⟩,
      (Except.ok.inj h).symm⟩
  · rintro ⟨hvalid, rfl⟩
    exact ⟨⟨⟩, (forIn_sinks_eq_ok _ _).mpr hvalid.sinks,
      bind_eq_ok.mpr ⟨⟨⟩, (forIn_transfers_eq_ok _).mpr hvalid.transfers, rfl⟩⟩

theorem exists_compile_iff : (∃ t', t.compile = .ok t') ↔ t.Valid :=
  ⟨fun ⟨_, h⟩ => (compile_eq_ok.mp h).1, fun h => ⟨_, compile_eq_ok.mpr ⟨h, rfl⟩⟩⟩

/-- What is compiled is valid as it was before. -/
theorem valid_of_compile (h : t.compile = .ok t') : t'.Valid := by
  obtain ⟨hvalid, rfl⟩ := compile_eq_ok.mp h
  constructor
  · intro c hc
    obtain ⟨c, hmem, rfl⟩ := List.mem_map.mp hc
    rw [c.compile_keeps.1]
    exact hvalid.sinks c hmem
  · intro c hc
    obtain ⟨c, hmem, rfl⟩ := List.mem_map.mp hc
    exact CodeIdentifier.hasPositions_compile.mpr (hvalid.transfers c hmem)

end TaintSpec

namespace Taint

variable {p : Program} {t : TaintSpec} {r : Rules}

/-- The taint analysis resolves the valid problems, over whatever program. -/
theorem exists_resolve_iff : (∃ r, Rules.resolve p t = .ok r) ↔ t.Valid := by
  unfold Rules.resolve Rules.check
  constructor
  · rintro ⟨r, h⟩
    obtain ⟨_, hcheck, -⟩ := bind_eq_ok.mp h
    obtain ⟨_, hsinks, hcheck⟩ := bind_eq_ok.mp hcheck
    obtain ⟨_, htransfers, -⟩ := bind_eq_ok.mp hcheck
    exact ⟨(TaintSpec.forIn_sinks_eq_ok _ _).mp hsinks, (TaintSpec.forIn_transfers_eq_ok _).mp htransfers⟩
  · intro hvalid
    refine ⟨_, bind_eq_ok.mpr ⟨(), bind_eq_ok.mpr ⟨(), ?_, bind_eq_ok.mpr ⟨(), ?_, rfl⟩⟩, rfl⟩⟩
    · exact (TaintSpec.forIn_sinks_eq_ok _ _).mpr hvalid.sinks
    · exact (TaintSpec.forIn_transfers_eq_ok _).mpr hvalid.transfers

/-! ### Known functions -/

/-- The positions between which a known function passes taint exist. -/
theorem Passage.parse_positions (passage : Passage) : ∀ x ∈ passage.positions,
    (ArgPosition.parse x.1).isOk = true ∧ (ArgPosition.parse x.2).isOk = true := by
  cases passage <;> decide +kernel

theorem hasPositions_of_summary {c : CodeIdentifier} (hc : c ∈ summaries) : c.HasPositions := by
  obtain ⟨⟨cls, functions⟩, -, hc⟩ := List.mem_flatMap.mp hc
  obtain ⟨⟨name, passage⟩, -, hc⟩ := List.mem_flatMap.mp hc
  obtain ⟨x, hx, rfl⟩ := List.mem_map.mp hc
  obtain ⟨hsource, htarget⟩ := passage.parse_positions x hx
  exact CodeIdentifier.hasPositions_compile.mpr ⟨exists_of_isOk hsource, exists_of_isOk htarget⟩

/-- The transfers of the known functions do no harm to a problem. -/
theorem valid_withSummaries (h : t.Valid) : ({ t with transfers := t.transfers ++ summaries } : TaintSpec).Valid where
  sinks := h.sinks
  transfers c hc := (List.mem_append.mp hc).elim (h.transfers c) hasPositions_of_summary

end Taint

/-! ## Configurations -/

namespace Config

variable {c c' : Config}

/-- What the loader lets through. -/
structure Accepted (c : Config) : Prop where
  sensitivity : ∃ name ∈ sensitivities, c.contextSensitivity.isText name = true
  contextDepth : 1 ≤ c.contextDepth
  heapContextDepth : 0 ≤ c.heapContextDepth ∧ c.heapContextDepth ≤ c.contextDepth
  problems : ∀ t ∈ c.problems, t.Valid

theorem valid_of_compileProblems {ts ts' : List TaintSpec} (h : compileProblems ts = .ok ts') :
    ∀ t ∈ ts', t.Valid := by
  intro t' ht'
  obtain ⟨⟨t, i⟩, -, ht⟩ := exists_of_mem_mapM h ht'
  dsimp only at ht
  split at ht
  · rename_i hcompile
    exact TaintSpec.valid_of_compile (Except.ok.inj ht ▸ hcompile)
  · cases ht

/-- The depth of contexts that is filled in is positive. -/
theorem one_le_contextDepth (c : Config) (heapDepthGiven : Bool) :
    1 ≤ (c.withDefaults heapDepthGiven).contextDepth := by
  show 1 ≤ if c.contextDepth ≤ 0 then 1 else c.contextDepth
  split <;> omega

theorem accepted_of_complete {heapDepthGiven : Bool} (h : c.complete heapDepthGiven = .ok c') :
    c'.Accepted := by
  have hdepth := c.one_le_contextDepth heapDepthGiven
  unfold complete at h
  dsimp only at h
  split at h
  · cases h
  · rename_i hsensitivity
    split at h
    · cases h
    · rename_i hheap
      obtain ⟨problems, hproblems, h⟩ := bind_eq_ok.mp h
      obtain rfl := Except.ok.inj h
      refine ⟨?_, hdepth, ⟨?_, ?_⟩, valid_of_compileProblems hproblems⟩
      · simpa using hsensitivity
      · show 0 ≤ (c.withDefaults heapDepthGiven).heapContextDepth
        omega
      · show (c.withDefaults heapDepthGiven).heapContextDepth ≤ (c.withDefaults heapDepthGiven).contextDepth
        omega

/-- Whatever a text says or leaves out, and whatever the decoder makes of it, what is loaded from it has
been checked as a whole. -/
theorem accepted_of_loadWith {d : Decoder} {text : String} (h : loadWith d text = .ok c) : c.Accepted := by
  obtain ⟨heapDepthGiven, -, h⟩ := bind_eq_ok.mp h
  obtain ⟨decoded, -, h⟩ := bind_eq_ok.mp h
  exact accepted_of_complete h

/-- There is a context selector for each sensitivity that the loader knows. -/
theorem exists_pointsTo (h : ∃ name ∈ sensitivities, c.contextSensitivity.isText name = true) :
    ∃ o, c.pointsTo = .ok o := by
  obtain ⟨name, hname, htext⟩ := h
  have htext : c.contextSensitivity = .ofString name := by simpa [Text.ByteText.isText] using htext
  have hread : ∀ name ∈ sensitivities, (Text.ByteText.ofString name).text? = some name := by
    decide +kernel
  have hnamed : ∀ name ∈ sensitivities, ∀ k hk, (PointsTo.Selector.ofName? name k hk).isSome = true := by
    intro name hname k hk
    simp only [sensitivities, List.mem_cons, List.not_mem_nil, or_false] at hname
    rcases hname with rfl | rfl | rfl | rfl <;> rfl
  obtain ⟨s, hs⟩ := Option.isSome_iff_exists.mp (hnamed name hname c.contextDepth c.heapContextDepth)
  refine ⟨_, bind_eq_ok.mpr ⟨s, ?_, rfl⟩⟩
  unfold selector
  rw [htext, hread name hname, Option.bind_some, hs]

/-- The analyses accept what the loader lets through, whichever decoder it is given, and the taint analysis
accepts exactly the problems that the loader would compile, whoever made them. -/
theorem validators_agree (d : Decoder) :
    (∀ text c, loadWith d text = .ok c →
      (∃ name ∈ sensitivities, c.contextSensitivity.isText name = true) ∧
      1 ≤ c.contextDepth ∧ 0 ≤ c.heapContextDepth ∧ c.heapContextDepth ≤ c.contextDepth ∧
      (∃ o, c.pointsTo = .ok o) ∧
      ∀ p, ∀ t ∈ c.problems, (∃ r, Taint.Rules.resolve p t = .ok r) ∧
        ∃ r, Taint.Rules.resolve p { t with transfers := t.transfers ++ Taint.summaries } = .ok r) ∧
    ∀ p t, (∃ e, Taint.Rules.resolve p t = .error e) ↔ ∃ e, t.compile = .error e := by
  constructor
  · intro text c h
    have hc := accepted_of_loadWith h
    refine ⟨hc.sensitivity, hc.contextDepth, hc.heapContextDepth.1, hc.heapContextDepth.2,
      exists_pointsTo hc.sensitivity, fun p t ht => ⟨?_, ?_⟩⟩
    · exact Taint.exists_resolve_iff.mpr (hc.problems t ht)
    · exact Taint.exists_resolve_iff.mpr (Taint.valid_withSummaries (hc.problems t ht))
  · intro p t
    rw [exists_error_iff, exists_error_iff, Taint.exists_resolve_iff, TaintSpec.exists_compile_iff]

/-- A text that asks for contexts of receivers, and has a problem with a sink and a transfer. -/
def sample : String :=
  "\x7b\"options\": \x7b\"context-sensitivity\": \"k-obj\"\x7d, \"taint-tracking-problems\": " ++
    "[\x7b\"sinks\": [\x7b\"method\": \"send\"\x7d], " ++
    "\"transfers\": [\x7b\"from\": \"0\", \"to\": \"result\"\x7d]\x7d]\x7d"

/-- The analyses accept the configuration that is loaded from the text. -/
theorem validators_agree_sample :
    ∃ c, loadWith .yaml sample = .ok c ∧ c.problems.length = 1 ∧ (∃ o, c.pointsTo = .ok o) ∧
      ∀ t ∈ c.problems, ∃ r, Taint.Rules.resolve {} t = .ok r := by
  have hloads : (loadWith .yaml sample).toOption.any (fun c => c.problems.length == 1) = true := by decide +kernel
  cases hload : loadWith .yaml sample with
  | error e =>
    rw [hload] at hloads
    cases hloads
  | ok c =>
    rw [hload] at hloads
    obtain ⟨-, -, -, -, hpointsTo, hproblems⟩ := (validators_agree .yaml).1 sample c hload
    exact ⟨c, rfl, by simpa [Except.toOption] using hloads, hpointsTo, fun t ht => (hproblems {} t ht).1⟩

end Config

end WholeProgram
