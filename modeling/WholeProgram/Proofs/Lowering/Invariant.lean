import Mathlib.Data.List.Nodup
import WholeProgram.Proofs.Lowering.Frames
import WholeProgram.Proofs.Program.Moves

/-!
# What holds between declarations

Whatever a lowering declares, and wherever it comes to it, is declared under a name or a subsignature that
is free, so no fault is recorded. Every method that is declared waits for its body once, or has none.

* `Draft.Settled` — the methods can be closed once the labels that are awaited are bound;
* `Queued` — different functions wait, and go into different methods;
* `Invariant` — what holds between any two declarations;
* `Invariant.congr`, `Invariant.enlists`, `Invariant.know`, `Invariant.modify`, `Invariant.grow` — the changes
  that keep it: of what it is not about, of classes, of what is known, of a draft, and of the methods.
-/

namespace WholeProgram

namespace Stmt

variable {τ υ : Type}

/-- The operator of a branch is a condition. -/
def Conditional : Stmt τ → Prop
  | branch op _ _ _ => op.family = .ok .condition
  | _ => True

theorem Straight.conditional {s : Stmt τ} (h : s.Straight) : s.Conditional := by
  cases s with
  | branch => exact h.elim
  | _ => trivial

theorem conditional_mapTargets {f : τ → υ} {s : Stmt τ} (h : s.Conditional) : (s.mapTargets f).Conditional := by
  cases s with
  | branch => exact h
  | _ => trivial

end Stmt

/-! ## Drafts and methods -/

namespace Draft

/-- The method has a body, whose branches compare, and its labels stand for statements, but for those that are
awaited. -/
structure Settled (d : Draft) (awaited : Label → Prop) : Prop where
  concrete : d.header.isAbstract = false
  conditional : ∀ e ∈ d.code, e.1.Conditional
  placed : ∀ l < d.labels.size, d.place? l = none → awaited l

/-- What settles a draft. -/
def frame (d : Draft) : Bool × Array (Option Nat) × List Label × Array (Stmt Label × Option String) :=
  (d.header.isAbstract, d.labels, d.pending, d.code)

variable {d d' : Draft} {awaited awaited' : Label → Prop}

theorem Settled.congr (h : d.Settled awaited) (hframe : d'.frame = d.frame) : d'.Settled awaited := by
  simp only [frame, Prod.mk.injEq] at hframe
  obtain ⟨habstract, hlabels, hpending, hcode⟩ := hframe
  refine ⟨habstract.trans h.concrete, fun e he => h.conditional e (hcode ▸ he),
    fun l hl hnone => h.placed l (hlabels ▸ hl) ?_⟩
  rw [place?, hlabels, hpending, hcode] at hnone
  exact hnone

theorem Settled.mono (h : d.Settled awaited) (hle : ∀ l, awaited l → awaited' l) : d.Settled awaited' :=
  ⟨h.concrete, h.conditional, fun l hl hnone => hle l (h.placed l hl hnone)⟩

/-- A method without statements has no labels. -/
theorem settled_blank {header : Method} (h : header.isAbstract = false) : ({ header } : Draft).Settled awaited :=
  ⟨h, fun _ he => absurd he (Array.not_mem_empty _), fun _ hl => absurd hl (Nat.not_lt_zero _)⟩

theorem Settled.push {s : Stmt Label} (h : d.Settled awaited) (hs : s.Conditional) : (d.push s).Settled awaited := by
  refine ⟨h.concrete, fun e he => ?_, fun l hl hnone => ?_⟩
  · rcases Array.mem_push.mp he with he | rfl
    · exact h.conditional e he
    · exact hs
  · rw [size_labels_push] at hl
    exact h.placed l hl ((place?_push (fun _ => hl) s).symm.trans hnone)

/-- The statements of the method branch on conditions. -/
theorem Settled.body (h : d.Settled awaited) : ∀ e ∈ d.close.toMethod.body, e.stmt.Conditional := by
  have hclose : d.close.Settled awaited := by
    unfold close
    split
    · exact h
    · exact h.push trivial
  intro e he
  obtain ⟨c, hc, rfl⟩ := Array.mem_map.mp he
  exact Stmt.conditional_mapTargets (hclose.conditional c hc)

/-- When no label is awaited, all are bound in the end. -/
theorem Settled.bound (h : d.Settled fun _ => False) : d.close.Bound := by
  intro l hl hnone
  rw [size_labels_close] at hl
  exact h.placed l hl ((labels_close fun _ => hl).symm.trans hnone)

end Draft

namespace Builder

variable {b : Builder} {c : ClassId} {spec : MethodSpec}

/-- A method whose subsignature the class does not have is listed with the class. -/
theorem addMethod_new (hlisted : ∀ d, b.classes[c]? = some d → ∀ m ∈ d.methods, m < b.drafts.size)
    (hnone : b.declaredMethod? c (subsignature b.className spec.name (spec.params.map (·.2))) = none) :
    b.addMethod c spec = ((b.declare c spec).listMethod c b.drafts.size, b.drafts.size) := by
  rw [addMethod_eq]
  dsimp only
  rw [if_neg]
  · rfl
  rw [(errors_declare b c spec).2.1]
  cases hd : b.classes[c]? with
  | none => simp
  | some d =>
    rw [declaredMethod?, hd, Option.bind_some, Array.find?_eq_none] at hnone
    rw [Option.map_some, Option.getD_some, Array.any_eq_true']
    rintro ⟨k, hk, heq⟩
    -- the methods of the class are old ones
    have hold : (b.declare c spec).header k = b.header k := by
      have hget := Array.getElem?_eq_getElem (hlisted d hd k hk)
      rw [header, (Extends.declare b c spec).drafts k _ hget, header, hget]
    rw [hold] at heq
    exact hnone k hk heq

/-- The drafts with a new method are the old ones and a blank one. -/
theorem cases_declare {m : MethodId} {d' : Draft} (hd' : (b.declare c spec).drafts[m]? = some d') :
    (∃ d, b.drafts[m]? = some d ∧ d'.frame = d.frame) ∨
      ∃ header : Method, header.isAbstract = spec.isAbstract ∧ d'.frame = ({ header } : Draft).frame := by
  obtain ⟨header, -, -, habstract, hmap⟩ := map_drafts_declare (g := Draft.frame) (fun _ _ _ _ => rfl) b c spec
  have hframe : ((b.declare c spec).drafts.map Draft.frame)[m]? = some d'.frame := by
    rw [Array.getElem?_map, hd', Option.map_some]
  rw [hmap] at hframe
  rcases getElem?_push_eq_some.mp hframe with hold | ⟨-, hnew⟩
  · rw [Array.getElem?_map] at hold
    obtain ⟨d, hd, heq⟩ := Option.map_eq_some_iff.mp hold
    exact Or.inl ⟨d, hd, heq.symm⟩
  · exact Or.inr ⟨header, habstract, hnew.symm⟩

theorem size_drafts_declare (b : Builder) (c : ClassId) (spec : MethodSpec) :
    (b.declare c spec).drafts.size = b.drafts.size + 1 := by
  obtain ⟨header, -, -, -, hmap⟩ := map_drafts_declare (g := Draft.frame) (fun _ _ _ _ => rfl) b c spec
  simpa using congrArg Array.size hmap

end Builder

namespace Lowering

open Ssa (TypeId FuncId GlobalId)

/-! ## The invariant -/

/-- A function, and the method that its body goes into. -/
abbrev Work := FuncId × MethodId

/-- Different functions of the source program have different methods. -/
structure Queued (S : Setting) (queue : List Work) (s : State) : Prop where
  functions : (queue.map (·.1)).Nodup
  methods : (queue.map (·.2)).Nodup
  known : ∀ w ∈ queue, s.methods[w.1]? = some w.2
  function_lt : ∀ w ∈ queue, w.1 < S.source.funcs.size
  method_lt : ∀ w ∈ queue, w.2 < s.builder.drafts.size

/-- What holds between declarations. The bodies of `done` were lowered, or one of them is being lowered;
`front` is waiting for theirs, and others may wait behind it. -/
structure Invariant (S : Setting) (done front : List Work) (awaited : MethodId → Label → Prop) (s : State) : Prop
    extends Tidy s where
  listed : ∀ (c : ClassId) (d : Class), s.builder.classes[c]? = some d → ∀ m ∈ d.methods, m < s.builder.drafts.size
  settled : ∀ (m : MethodId) (d : Draft), s.builder.drafts[m]? = some d → d.Settled (awaited m)
  queued : Queued S (done ++ s.waiting) s
  ahead : front <+: s.waiting
  functions : s.functions = done.length
  count : s.builder.drafts.size = s.functions + s.stubs + s.waiting.length

variable {S : Setting} {done front queue : List Work} {awaited awaited' : MethodId → Label → Prop} {s s' : State}
  {f : FuncId} {m : MethodId} {c : ClassId}

theorem Queued.mono (h : Queued S queue s)
    (hmethods : ∀ (f : FuncId) (m : MethodId), s.methods[f]? = some m → s'.methods[f]? = some m)
    (hsize : s.builder.drafts.size ≤ s'.builder.drafts.size) : Queued S queue s' where
  functions := h.functions
  methods := h.methods
  known w hw := hmethods w.1 w.2 (h.known w hw)
  function_lt := h.function_lt
  method_lt w hw := Nat.lt_of_lt_of_le (h.method_lt w hw) hsize

/-- A function that had no method gets a new one, and waits behind the others. -/
theorem Queued.concat (h : Queued S queue s) (hf : s.methods[f]? = none) (hlt : f < S.source.funcs.size)
    (hmethods : s'.methods = s.methods.insert f s.builder.drafts.size)
    (hsize : s'.builder.drafts.size = s.builder.drafts.size + 1) :
    Queued S (queue ++ [(f, s.builder.drafts.size)]) s' := by
  have hf_notMem : f ∉ queue.map (·.1) := by
    intro hmem
    obtain ⟨w, hw, rfl⟩ := List.mem_map.mp hmem
    rw [h.known w hw] at hf
    cases hf
  have hm_notMem : s.builder.drafts.size ∉ queue.map (·.2) := by
    intro hmem
    obtain ⟨w, hw, heq⟩ := List.mem_map.mp hmem
    exact absurd heq (Nat.ne_of_lt (h.method_lt w hw))
  refine ⟨?_, ?_, fun w hw => ?_, fun w hw => ?_, fun w hw => ?_⟩
  · rw [List.map_append]
    exact List.nodup_append_comm.mp (List.nodup_cons.mpr ⟨hf_notMem, h.functions⟩)
  · rw [List.map_append]
    exact List.nodup_append_comm.mp (List.nodup_cons.mpr ⟨hm_notMem, h.methods⟩)
  · rw [hmethods, Std.HashMap.getElem?_insert]
    rcases List.mem_append.mp hw with hw | hw
    · rw [if_neg fun heq => hf_notMem (List.mem_map.mpr ⟨w, hw, (beq_iff_eq.mp heq).symm⟩)]
      exact h.known w hw
    · obtain rfl := List.mem_singleton.mp hw
      rw [if_pos (beq_self_eq_true f)]
  · rcases List.mem_append.mp hw with hw | hw
    · exact h.function_lt w hw
    · obtain rfl := List.mem_singleton.mp hw
      exact hlt
  · rw [hsize]
    rcases List.mem_append.mp hw with hw | hw
    · exact Nat.lt_succ_of_lt (h.method_lt w hw)
    · obtain rfl := List.mem_singleton.mp hw
      exact Nat.lt_succ_self _

/-- What the invariant knows of a class. -/
def classKey (d : Class) : String × Bool × Array MethodId := (d.name, d.isInterface, d.methods)

/-- What the invariant is about. -/
def State.core (s : State) :=
  (s.builder.errors, s.builder.classes.map classKey, s.builder.drafts, s.classes, s.interfaces, s.methods, s.waiting,
    s.functions, s.stubs)

/-- Classes with the same keys have the same names, and are interfaces alike. -/
theorem getElem?_of_keys {classes classes' : Array Class} (h : classes'.map classKey = classes.map classKey)
    {β : Type} (g : String × Bool × Array MethodId → β) (c : ClassId) :
    (classes'[c]?).map (g ∘ classKey) = (classes[c]?).map (g ∘ classKey) := by
  rw [← Option.map_map, ← Array.getElem?_map, h, Array.getElem?_map, Option.map_map]

theorem Tidy.congr (h : Tidy s) (herrors : s'.builder.errors = s.builder.errors)
    (hkeys : s'.builder.classes.map classKey = s.builder.classes.map classKey) (hnames : s'.classes = s.classes)
    (hinterfaces : s'.interfaces = s.interfaces) : Tidy s' where
  errors := herrors.trans h.errors
  names n c := by
    rw [hnames, h.names n c]
    exact (congrArg (· = some n) (getElem?_of_keys hkeys (·.1) c)).symm.to_iff
  size := by
    rw [hnames, h.size]
    simpa using (congrArg Array.size hkeys).symm
  interfaces e he := by
    rw [hinterfaces] at he
    exact (getElem?_of_keys hkeys (·.2.1) e.1).trans (h.interfaces e he)

theorem Invariant.congr (h : Invariant S done front awaited s) (hcore : s'.core = s.core) :
    Invariant S done front awaited s' := by
  simp only [State.core, Prod.mk.injEq] at hcore
  obtain ⟨herrors, hkeys, hdrafts, hnames, hinterfaces, hmethods, hwaiting, hfunctions, hstubs⟩ := hcore
  refine ⟨h.toTidy.congr herrors hkeys hnames hinterfaces, fun c d hd m hm => ?_, fun m d hd => ?_, ?_, ?_, ?_, ?_⟩
  · have hget := getElem?_of_keys hkeys (·.2.2) c
    rw [hd] at hget
    obtain ⟨e, he, heq⟩ := Option.map_eq_some_iff.mp hget.symm
    have hmethods' : e.methods = d.methods := heq
    rw [hdrafts]
    exact h.listed c e he m (hmethods' ▸ hm)
  · exact h.settled m d (hdrafts ▸ hd)
  · rw [hwaiting]
    exact h.queued.mono (fun f m hm => hmethods ▸ hm) (Nat.le_of_eq (congrArg Array.size hdrafts).symm)
  · rw [hwaiting]
    exact h.ahead
  · rw [hfunctions, h.functions]
  · rw [hdrafts, hfunctions, hstubs, hwaiting, h.count]

theorem Invariant.enlists (h : Invariant S done front awaited s) (he : Enlists s s') (ht : Tidy s') :
    Invariant S done front awaited s' := by
  refine ⟨ht, fun c d hd m hm => ?_, fun m d hd => ?_, ?_, ?_, ?_, ?_⟩
  · rw [he.drafts]
    rcases he.cases hd with hold | ⟨hempty, -⟩
    · exact h.listed c d hold m hm
    · rw [hempty] at hm
      cases Array.not_mem_empty _ hm
  · exact h.settled m d (he.drafts ▸ hd)
  · rw [he.waiting]
    exact h.queued.mono (fun f m hm => he.methods ▸ hm) (Nat.le_of_eq (congrArg Array.size he.drafts).symm)
  · rw [he.waiting]
    exact h.ahead
  · rw [he.functions, h.functions]
  · rw [he.drafts, he.functions, he.stubs, he.waiting, h.count]

/-- A function without a method of its own is known by one that there is. -/
theorem Invariant.know (h : Invariant S done front awaited s) (hf : s.methods[f]? = none) (m : MethodId) :
    Invariant S done front awaited { s with methods := s.methods.insert f m } :=
  ⟨⟨h.errors, h.names, h.size, h.interfaces⟩, h.listed, h.settled,
    h.queued.mono (fun _ _ hk => getElem?_insert_of_some m hf hk) (Nat.le_refl _), h.ahead, h.functions, h.count⟩

/-- A change of one draft, as a body is written. -/
theorem Invariant.modify {g : Draft → Draft} (h : Invariant S done front awaited s) (m : MethodId) (vars : Array Var)
    (index : Index)
    (hg : ∀ d, s.builder.drafts[m]? = some d → d.Settled (awaited m) → (g d).Settled (awaited' m))
    (hothers : ∀ k l, k ≠ m → awaited k l → awaited' k l) :
    Invariant S done front awaited'
      { s with builder := { s.builder with vars, index, drafts := s.builder.drafts.modify m g } } := by
  have hsize : (s.builder.drafts.modify m g).size = s.builder.drafts.size := Array.size_modify
  refine ⟨⟨h.errors, h.names, h.size, h.interfaces⟩, fun c d hd k hk => ?_, fun k d' hd' => ?_, ?_, h.ahead,
    h.functions, ?_⟩
  · show k < (s.builder.drafts.modify m g).size
    rw [hsize]
    exact h.listed c d hd k hk
  · obtain ⟨d, hd, rfl⟩ := getElem?_modify_eq_some.mp hd'
    split
    · rename_i heq
      subst heq
      exact hg d hd (h.settled m d hd)
    · rename_i hne
      exact (h.settled k d hd).mono fun l => hothers k l (Ne.symm hne)
  · exact h.queued.mono (fun _ _ hm => hm) (Nat.le_of_eq hsize.symm)
  · show (s.builder.drafts.modify m g).size = _
    rw [hsize]
    exact h.count

/-- One more method, whose subsignature its class does not have. -/
theorem Invariant.grow {spec : Builder.MethodSpec} (h : Invariant S done front awaited s)
    (hconcrete : spec.isAbstract = false)
    (hnone : s.builder.declaredMethod? c
      (subsignature s.builder.className spec.name (spec.params.map (·.2))) = none)
    (hbuilder : s'.builder = (s.builder.addMethod c spec).1) (hnames : s'.classes = s.classes)
    (hinterfaces : s'.interfaces = s.interfaces) (hfunctions : s'.functions = s.functions)
    (hqueued : s'.builder.drafts.size = s.builder.drafts.size + 1 → Queued S (done ++ s'.waiting) s')
    (hahead : s.waiting <+: s'.waiting)
    (hcount : s'.stubs + s'.waiting.length = s.stubs + s.waiting.length + 1) :
    Invariant S done front awaited s' := by
  rw [Builder.addMethod_new (fun d hd => h.listed c d hd) hnone] at hbuilder
  obtain ⟨herrors, hclasses, -⟩ := Builder.errors_declare s.builder c spec
  have hsize : s'.builder.drafts.size = s.builder.drafts.size + 1 := by
    rw [hbuilder]
    exact Builder.size_drafts_declare s.builder c spec
  have hclasses' : s'.builder.classes =
      s.builder.classes.modify c fun d => { d with methods := d.methods.push s.builder.drafts.size } := by
    rw [hbuilder, Builder.listMethod, hclasses]
  refine ⟨⟨?_, fun n k => ?_, ?_, fun e he => ?_⟩, fun k d' hd' i hi => ?_, fun k d' hd' => ?_, hqueued hsize,
    h.ahead.trans hahead, hfunctions.trans h.functions, ?_⟩
  · rw [hbuilder]
    exact herrors.trans h.errors
  · have hsame := map_modify_of_same (g := Class.name) (a := s.builder.classes) (i := c)
      (f := fun d => { d with methods := d.methods.push s.builder.drafts.size }) fun _ => rfl
    rw [hnames, h.names n k, hclasses', ← Array.getElem?_map, ← Array.getElem?_map, hsame]
  · rw [hnames, hclasses', Array.size_modify, h.size]
  · have hsame := map_modify_of_same (g := Class.isInterface) (a := s.builder.classes) (i := c)
      (f := fun d => { d with methods := d.methods.push s.builder.drafts.size }) fun _ => rfl
    rw [hclasses', ← Array.getElem?_map, hsame, Array.getElem?_map]
    exact h.interfaces e (hinterfaces ▸ he)
  · rw [hclasses'] at hd'
    obtain ⟨d, hd, rfl⟩ := getElem?_modify_eq_some.mp hd'
    rw [hsize]
    split at hi
    · rcases Array.mem_push.mp hi with hi | rfl
      · exact Nat.lt_succ_of_lt (h.listed k d hd i hi)
      · exact Nat.lt_succ_self _
    · exact Nat.lt_succ_of_lt (h.listed k d hd i hi)
  · have hdrafts : (s.builder.declare c spec).drafts[k]? = some d' := by
      rw [hbuilder] at hd'
      exact hd'
    rcases Builder.cases_declare hdrafts with ⟨d, hd, hframe⟩ | ⟨header, habstract, hframe⟩
    · exact (h.settled k d hd).congr hframe
    · exact (Draft.settled_blank (habstract.trans hconcrete)).congr hframe
  · have hold := h.count
    rw [hsize, hfunctions]
    omega

end Lowering

end WholeProgram
