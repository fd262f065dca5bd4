import Mathlib.Data.List.Induction
import WholeProgram.Proofs.PointsTo.Facts

/-!
# Carrying out requests

What a request does to the core. `Requested A s t new` says that from `s` to `t` only what requests
can change has changed: flows of `A` were added, and the entries `new` wait. From it follows what
the core gains, once for all requests:

* `gains_carryOutAll` — carrying out requests keeps the core in order, gains what they ask for
  (`Request.asks`) and grants them all (`Request.Granted`);
* `gains_of_same` — what is no part of a fact may change at will.
-/

namespace WholeProgram.PointsTo

namespace Core

variable {p : Program} {opts : Options} {A A' D D' : Set Fact} {K : Set Obj} {s t u : Core}

/-- From `s` to `t` only what requests can change has changed: tables grew, flows of `A` were added,
and objects for `A` or for a new flow wait. -/
structure Requested (A : Set Fact) (s t : Core) (new : List (Pointer × IdSet)) : Prop where
  tables : TableLe s t
  listed : s.Listed → t.Listed
  sets : ∀ q, t.pointsTo q = s.pointsTo q
  graph : t.graph = s.graph
  succs : ∀ a b, b ∈ t.succsOf a ↔ b ∈ s.succsOf a ∨ .flow a b ∈ A
  waiting : t.waiting.toList = s.waiting.toList ++ new
  entries : ∀ {q : Pointer} {set : IdSet}, (q, set) ∈ new → ∀ i ∈ set, ∃ o, t.Names i o ∧
    (.holds q o ∈ A ∨ ∃ a, .flow a q ∈ A ∧ .holds a o ∈ s.facts)
  rows : ∀ {i : CSObjId} {o : HeapObj}, t.Names i o → s.Names i o ∨ ∃ q set, (q, set) ∈ new ∧
    i ∈ set
  served : ∀ {a b : Pointer} {o : HeapObj}, .flow a b ∈ A → .holds a o ∈ s.facts →
    .holds b o ∈ t.promised

theorem Requested.promised_mono {new : List (Pointer × IdSet)} (h : Requested A s t new) :
    s.promised ⊆ t.promised := by
  rintro f ⟨q, set, i, o, rfl, hq, hi, ho⟩
  exact ⟨q, set, i, o, rfl, by rw [h.waiting]; exact List.mem_append_left _ hq, hi,
    h.tables.names ho⟩

/-- The facts are those from before and the flows asked for. -/
theorem Requested.mem_facts_iff {new : List (Pointer × IdSet)} (h : Requested A s t new)
    (hs : s.Ok K) (f : Fact) : f ∈ t.facts ↔ f ∈ s.facts ∨ ∃ a b, f = .flow a b ∧ f ∈ A := by
  cases f with
  | reach m => simp [facts, Has, h.graph]
  | edge site m => simp [facts, Has, h.graph]
  | flow a b =>
    show b ∈ t.succsOf a ↔ b ∈ s.succsOf a ∨ _
    rw [h.succs]
    simp
  | holds q o =>
    constructor
    · rintro ⟨i, hi, ho⟩
      rw [h.sets q] at hi
      exact Or.inl ⟨i, hi, hs.names_old h.tables hi ho⟩
    · rintro (⟨i, hi, ho⟩ | ⟨a, b, hab, _⟩)
      · exact ⟨i, by rw [h.sets q]; exact hi, h.tables.names ho⟩
      · cases hab
  | fault => simp [facts, Has]

theorem Requested.ok {new : List (Pointer × IdSet)} (h : Requested A s t new) (hs : s.Ok K)
    (htables : Tables t) (hobjs : ∀ o ∈ t.objs, o ∈ K) : t.Ok K where
  tables := htables
  listed := h.listed hs.listed
  objs := hobjs
  graph := by rw [h.graph]; exact hs.graph
  held := by
    intro q i hi
    rw [h.sets q] at hi
    obtain ⟨o, ho⟩ := hs.held hi
    exact ⟨o, h.tables.names ho⟩
  waiting := by
    intro q set hq i hi
    rw [h.waiting, List.mem_append] at hq
    rcases hq with hq | hq
    · obtain ⟨o, ho⟩ := hs.waiting hq i hi
      exact ⟨o, h.tables.names ho⟩
    · obtain ⟨o, ho, _⟩ := h.entries hq i hi
      exact ⟨o, ho⟩
  used := by
    intro i o ho
    rcases h.rows ho with hold | ⟨q, set, hq, hi⟩
    · obtain ⟨q, hq⟩ := hs.used hold
      refine ⟨q, hq.imp (fun hf => (h.mem_facts_iff hs _).mpr (Or.inl hf)) fun hf =>
        h.promised_mono hf⟩
    · refine ⟨q, Or.inr ⟨q, set, i, o, rfl, ?_, hi, ho⟩⟩
      rw [h.waiting]
      exact List.mem_append_right _ hq

/-- A fact that is no flow was held before. -/
theorem Requested.old_fact {new : List (Pointer × IdSet)} (h : Requested A s t new) (hs : s.Ok K)
    {f : Fact} (hf : f ∈ t.facts) (hno : ∀ a b, f ≠ .flow a b) : f ∈ s.facts := by
  rcases (h.mem_facts_iff hs f).mp hf with hf | ⟨a, b, rfl, _⟩
  · exact hf
  · exact absurd rfl (hno a b)

theorem Requested.gains {new : List (Pointer × IdSet)} (h : Requested A s t new) (hs : s.Ok K) :
    Gains p opts A ∅ s t where
  tables := h.tables
  facts := fun f hf => (h.mem_facts_iff hs f).mpr (Or.inl hf)
  facts_new := by
    intro f hf
    rcases (h.mem_facts_iff hs f).mp hf with hf | ⟨_, _, _, hf⟩
    · exact Or.inl hf
    · exact Or.inr hf
  met := by
    rintro f (hf | hf)
    · exact Or.inl ((h.mem_facts_iff hs f).mpr (Or.inl hf))
    · exact Or.inr (h.promised_mono hf)
  met_new := by
    rintro f (hf | ⟨q, set, i, o, rfl, hq, hi, ho⟩)
    · rcases (h.mem_facts_iff hs f).mp hf with hf | ⟨_, _, _, hf⟩
      · exact Or.inl (Or.inl hf)
      · exact Or.inr (Or.inl hf)
    · rw [h.waiting, List.mem_append] at hq
      rcases hq with hq | hq
      · exact Or.inl (Or.inr ⟨q, set, i, o, rfl, hq, hi, hs.names_old_waiting h.tables hq hi ho⟩)
      · obtain ⟨o', ho', hwhy⟩ := h.entries hq i hi
        obtain rfl := ho'.unique ho
        rcases hwhy with hA | ⟨a, hflow, hheld⟩
        · exact Or.inr (Or.inl hA)
        · refine Or.inr (Or.inr (.flow (a := a) ?_ ?_))
          · exact (h.mem_facts_iff hs _).mpr (Or.inr ⟨a, q, rfl, hflow⟩)
          · exact (h.mem_facts_iff hs _).mpr (Or.inl hheld)
  demands := by
    intro f hf
    cases hf with
    | entry hm => exact Or.inl (.entry hm)
    | stmt hr hd => exact Or.inl (.stmt (h.old_fact hs hr (by simp)) hd)
    | through hh hu _ => exact Or.inl (.through (h.old_fact hs hh (by simp)) hu (by simp))
    | callee he => exact Or.inl (.callee (h.old_fact hs he (by simp)))
    | link he hl => exact Or.inl (.link (h.old_fact hs he (by simp)) hl)
    | flow hab hh =>
      have hheld := h.old_fact hs hh (by simp)
      rcases (h.mem_facts_iff hs _).mp hab with hab | ⟨_, _, _, hA⟩
      · exact Or.inl (.flow hab hheld)
      · exact Or.inr (Or.inl (Or.inr (h.served hA hheld)))

@[simp]
theorem touch_pointsTo (s : Core) (q a : Pointer) : (s.touch q).pointsTo a = s.pointsTo a := by
  unfold touch pointsTo
  split
  · rfl
  · rename_i hnew
    simp only [Std.HashMap.getElem?_insert, beq_iff_eq]
    split
    · rename_i heq
      subst heq
      have hnone : s.sets[q]? = none :=
        Std.HashMap.getElem?_eq_none_of_contains_eq_false (by simpa using hnew)
      rw [hnone]
      rfl
    · rfl

/-- The tables are the same. -/
structure SameTables (s t : Core) : Prop where
  objs : t.objs = s.objs
  objIndex : t.objIndex = s.objIndex
  csObjs : t.csObjs = s.csObjs
  csObjIndex : t.csObjIndex = s.csObjIndex

theorem SameTables.trans (hst : SameTables s t) (htu : SameTables t u) : SameTables s u :=
  ⟨htu.objs.trans hst.objs, htu.objIndex.trans hst.objIndex, htu.csObjs.trans hst.csObjs,
    htu.csObjIndex.trans hst.csObjIndex⟩

theorem SameTables.tableLe (h : SameTables s t) : TableLe s t :=
  ⟨fun hn => by rw [h.objs]; exact hn, fun hn => by rw [h.csObjs]; exact hn⟩

theorem SameTables.tables (h : SameTables s t) (hs : Tables s) : Tables t := by
  refine ⟨?_, ?_, ?_⟩
  · rw [h.objs, h.objIndex]
    exact hs.objIndex
  · rw [h.csObjs, h.csObjIndex]
    exact hs.csObjIndex
  · rw [h.csObjs, h.objs]
    exact hs.valid

theorem SameTables.names (h : SameTables s t) {i : CSObjId} {o : HeapObj} (ho : t.Names i o) :
    s.Names i o := by
  obtain ⟨n, hn, hobj⟩ := ho
  exact ⟨n, by rw [← h.csObjs]; exact hn, by rw [← h.objs]; exact hobj⟩

theorem sameTables_touch (s : Core) (q : Pointer) : SameTables s (s.touch q) := by
  unfold touch
  split <;> exact ⟨rfl, rfl, rfl, rfl⟩

@[simp]
theorem touch_succsOf (s : Core) (q a : Pointer) : (s.touch q).succsOf a = s.succsOf a := by
  unfold touch
  split <;> rfl

@[simp]
theorem touch_waiting (s : Core) (q : Pointer) : (s.touch q).waiting = s.waiting := by
  unfold touch
  split <;> rfl

@[simp]
theorem touch_graph (s : Core) (q : Pointer) : (s.touch q).graph = s.graph := by
  unfold touch
  split <;> rfl

/-- Making a pointer lists it. -/
theorem Listed.touch (h : s.Listed) (q : Pointer) :
    (s.touch q).Listed ∧ q ∈ (s.touch q).pointers ∧ ∀ a ∈ s.pointers, a ∈ (s.touch q).pointers := by
  unfold Core.touch
  split
  · rename_i hold
    exact ⟨h, h q hold, fun _ ha => ha⟩
  · refine ⟨?_, by simp, fun a ha => by simp [ha]⟩
    intro a ha
    simp only [Std.HashMap.contains_insert, Bool.or_eq_true, beq_iff_eq] at ha
    simp only [Array.mem_push]
    rcases ha with rfl | ha
    · exact Or.inr rfl
    · exact Or.inl (h a ha)

theorem requested_touch (s : Core) (q : Pointer) : Requested ∅ s (s.touch q) [] where
  tables := (sameTables_touch s q).tableLe
  listed := fun h => (h.touch q).1
  rows := fun ho => Or.inl ((sameTables_touch s q).names ho)
  sets := by simp
  graph := by simp
  succs := by simp
  waiting := by simp
  entries := by simp
  served := by simp

theorem listFlowPointer_eq (s : Core) (q : Pointer) :
    ∃ ps known, s.listFlowPointer q = { s with flowPointers := ps, flowKnown := known } := by
  unfold listFlowPointer
  split
  · exact ⟨_, _, rfl⟩
  · exact ⟨_, _, rfl⟩

/-- What adding a flow does when the flow is new: the target is listed, and what the source holds
waits. -/
theorem addFlow_new (s : Core) (a b : Pointer) (hnew : b ∉ s.succsOf a) :
    SameTables s (s.addFlow a b) ∧ (s.Listed → (s.addFlow a b).Listed) ∧
    (∀ q, (s.addFlow a b).pointsTo q = s.pointsTo q) ∧
    (s.addFlow a b).graph = s.graph ∧
    (∀ q, (s.addFlow a b).succsOf q = if a = q then (s.succsOf q).push b else s.succsOf q) ∧
    (s.addFlow a b).waiting.toList =
      s.waiting.toList ++ if (s.pointsTo a).isEmpty then [] else [(b, s.pointsTo a)] := by
  unfold addFlow
  -- of the state with both pointers made only this is needed
  have ht : SameTables s ((s.touch a).touch b) :=
    (sameTables_touch s a).trans (sameTables_touch (s.touch a) b)
  have hlisted : s.Listed → ((s.touch a).touch b).Listed := fun h => ((h.touch a).1.touch b).1
  have hsets : ∀ q, ((s.touch a).touch b).pointsTo q = s.pointsTo q := by simp
  have hsuccs : ∀ q, ((s.touch a).touch b).succsOf q = s.succsOf q := by simp
  have hgraph : ((s.touch a).touch b).graph = s.graph := by simp
  have hwait : ((s.touch a).touch b).waiting = s.waiting := by simp
  generalize (s.touch a).touch b = t at ht hlisted hsets hsuccs hgraph hwait ⊢
  have hcontains : (t.succsOf a).contains b = false := by simpa [hsuccs] using hnew
  -- the state with the new flow, before its pointers are listed
  let s₁ : Core := { t with
    succs := t.succs.alter a fun ts => some ((ts.getD #[]).push b)
    numFlows := t.numFlows + 1 }
  obtain ⟨ps, known, h₁⟩ := listFlowPointer_eq s₁ a
  obtain ⟨ps', known', h₂⟩ := listFlowPointer_eq (s₁.listFlowPointer a) b
  have hsuccs₁ : ∀ q, s₁.succsOf q = if a = q then (s.succsOf q).push b else s.succsOf q := by
    intro q
    have hold := hsuccs q
    unfold succsOf at hold ⊢
    simp only [s₁, Std.HashMap.getElem?_alter, beq_iff_eq]
    by_cases haq : a = q
    · subst haq
      rw [if_pos rfl, if_pos rfl, Option.getD_some, hold]
    · rw [if_neg haq, if_neg haq, hold]
  have hheld : ((s₁.listFlowPointer a).listFlowPointer b).pointsTo a = s.pointsTo a := by
    rw [h₂, h₁]
    exact hsets a
  simp only [hcontains, Bool.false_eq_true, if_false]
  show SameTables s (if (((s₁.listFlowPointer a).listFlowPointer b).pointsTo a).isEmpty
    then (s₁.listFlowPointer a).listFlowPointer b else _) ∧ _
  rw [hheld, h₂, h₁]
  split
  · exact ⟨ht.trans ⟨rfl, rfl, rfl, rfl⟩, hlisted, hsets, hgraph, hsuccs₁, by simp [s₁, hwait]⟩
  · refine ⟨ht.trans ⟨rfl, rfl, rfl, rfl⟩, hlisted, hsets, hgraph, hsuccs₁, ?_⟩
    simp [s₁, addPointsTo, hwait]

/-- Adding a flow is a request for that flow. -/
theorem requested_addFlow (hs : s.Ok K) (a b : Pointer) :
    ∃ A ⊆ {Fact.flow a b}, ∃ new, Requested A s (s.addFlow a b) new ∧ SameTables s (s.addFlow a b) ∧
      .flow a b ∈ (s.addFlow a b).facts := by
  by_cases hold : b ∈ s.succsOf a
  · have heq : s.addFlow a b = (s.touch a).touch b := by
      unfold addFlow
      have hcontains : (((s.touch a).touch b).succsOf a).contains b = true := by
        simpa using hold
      simp only [hcontains, if_true]
    have htables := (sameTables_touch s a).trans (sameTables_touch (s.touch a) b)
    rw [heq]
    refine ⟨∅, Set.empty_subset _, [], ?_, htables, ?_⟩
    · refine ⟨htables.tableLe, fun h => ((h.touch a).1.touch b).1, ?_, ?_, ?_, ?_, ?_,
        fun ho => Or.inl (htables.names ho), ?_⟩ <;> simp
    · show b ∈ ((s.touch a).touch b).succsOf a
      simpa using hold
  · obtain ⟨htables, hlisted, hsets, hgraph, hsuccs, hwait⟩ := addFlow_new s a b hold
    refine ⟨{.flow a b}, subset_rfl, _, ⟨htables.tableLe, hlisted, hsets, hgraph, ?_, hwait, ?_,
      fun ho => Or.inl (htables.names ho), ?_⟩, htables, ?_⟩
    · intro q r
      rw [hsuccs q]
      by_cases haq : a = q
      · subst haq
        simp
      · simp [haq, Ne.symm haq]
    · intro q set hq i hi
      split at hq
      · cases hq
      · obtain ⟨rfl, rfl⟩ := Prod.mk.inj (List.mem_singleton.mp hq)
        obtain ⟨o, ho⟩ := hs.held hi
        exact ⟨o, htables.tableLe.names ho, Or.inr ⟨a, rfl, i, hi, ho⟩⟩
    · rintro a' b' o hab ⟨i, hi, ho⟩
      obtain ⟨rfl, rfl⟩ := Fact.flow.inj hab
      refine ⟨b', _, i, o, rfl, ?_, hi, htables.tableLe.names ho⟩
      rw [hwait, (IdSet.isEmpty_eq_false_iff _).mpr ⟨i, hi⟩]
      simp
    · show b ∈ (s.addFlow a b).succsOf a
      simp [hsuccs a]

/-- Making the objects of a request keeps the tables in order. The numbers name objects in the
contexts and with the keys asked for, and all of them. -/
theorem Tables.internAll (hs : Tables s) (objs : List (Context × Obj)) :
    Tables (s.internAll objs).1 ∧ TableLe s (s.internAll objs).1 ∧
    SameState s (s.internAll objs).1 ∧
    (∀ c ∈ (s.internAll objs).1.objs, c ∈ s.objs ∨ ∃ x ∈ objs, c = x.2) ∧
    (∀ i ∈ (s.internAll objs).2, ∃ x ∈ objs, ∃ b, b.key = x.2.key ∧
      (s.internAll objs).1.Names i ⟨x.1, b⟩) ∧
    (∀ x ∈ objs, ∃ i ∈ (s.internAll objs).2, ∃ b, b.key = x.2.key ∧
      (s.internAll objs).1.Names i ⟨x.1, b⟩) ∧
    (∀ i o, (s.internAll objs).1.Names i o → s.Names i o ∨ i ∈ (s.internAll objs).2) := by
  induction objs using List.reverseRecOn with
  | nil =>
    exact ⟨hs, .refl s,
      ⟨rfl, rfl, rfl, rfl, rfl⟩, by simp [Core.internAll], by simp [Core.internAll], by simp,
      fun _ _ ho => Or.inl ho⟩
  | append_singleton objs x ih =>
    obtain ⟨h₁, hle₁, hsame₁, hmem₁, hnames₁, hall₁, hrows₁⟩ := ih
    obtain ⟨h₂, hle₂, hsame₂, hmem₂, hrows₂, b, hkey, hb⟩ := h₁.internHeapObj ⟨x.1, x.2⟩
    have heq : s.internAll (objs ++ [x]) =
        (((s.internAll objs).1.internHeapObj ⟨x.1, x.2⟩).1,
          (s.internAll objs).2.insert ((s.internAll objs).1.internHeapObj ⟨x.1, x.2⟩).2) := by
      simp [Core.internAll, List.foldl_append]
    rw [heq]
    refine ⟨h₂, hle₁.trans hle₂, hsame₁.trans hsame₂, ?_, ?_, ?_, ?_⟩
    · intro c hc
      rcases hmem₂ c hc with rfl | hc
      · exact Or.inr ⟨x, by simp, rfl⟩
      · rcases hmem₁ c hc with hc | ⟨y, hy, rfl⟩
        · exact Or.inl hc
        · exact Or.inr ⟨y, List.mem_append_left _ hy, rfl⟩
    · intro i hi
      rcases (IdSet.mem_insert _ _ _).mp hi with rfl | hi
      · exact ⟨x, by simp, b, hkey, hb⟩
      · obtain ⟨y, hy, c, hc, hnames⟩ := hnames₁ i hi
        exact ⟨y, List.mem_append_left _ hy, c, hc, hle₂.names hnames⟩
    · intro y hy
      rcases List.mem_append.mp hy with hy | hy
      · obtain ⟨i, hi, c, hc, hnames⟩ := hall₁ y hy
        exact ⟨i, (IdSet.mem_insert _ _ _).mpr (Or.inr hi), c, hc, hle₂.names hnames⟩
      · rw [List.mem_singleton.mp hy]
        exact ⟨_, (IdSet.mem_insert _ _ _).mpr (Or.inl rfl), b, hkey, hb⟩
    · intro i o ho
      rcases hrows₂ i o ho with ho | rfl
      · exact (hrows₁ i o ho).imp_right fun hi => (IdSet.mem_insert _ _ _).mpr (Or.inr hi)
      · exact Or.inr ((IdSet.mem_insert _ _ _).mpr (Or.inl rfl))

end Core

namespace Request

/-- The objects that a request names. -/
def objs : Request → List (Context × Obj)
  | .pointTo _ _ os | .add _ os => os
  | _ => []

/-- The facts that a pointer holds the objects. An object is known by its key: if one of `K` has the same
key, it may stand for it. -/
def objectFacts (K : Set Obj) (q : Pointer) (os : List (Context × Obj)) : Set Fact :=
  {f | ∃ x ∈ os, ∃ b ∈ K, b.key = x.2.key ∧ f = .holds q ⟨x.1, b⟩}

/-- The facts that a request asks for. -/
def asks (K : Set Obj) : Request → Set Fact
  | .touch _ _ => ∅
  | .pointTo ctx v os => objectFacts K (.var ctx v) os
  | .add q os => objectFacts K q os
  | .flow a b => {.flow a b}

/-- The pointer holds the objects, or is promised them. -/
def HasObjects (s : Core) (q : Pointer) (os : List (Context × Obj)) : Prop :=
  ∀ x ∈ os, ∃ b ∈ s.objs, b.key = x.2.key ∧ .holds q ⟨x.1, b⟩ ∈ s.met

/-- The core has what the request asks for. -/
def Granted (s : Core) : Request → Prop
  | .touch _ _ => True
  | .pointTo ctx v os => HasObjects s (.var ctx v) os
  | .add q os => HasObjects s q os
  | .flow a b => .flow a b ∈ s.facts

end Request

namespace Core

theorem Gains.hasObjects (h : Gains p opts A D s t) {q : Pointer} {os : List (Context × Obj)}
    (hq : Request.HasObjects s q os) : Request.HasObjects t q os := by
  intro x hx
  obtain ⟨b, hb, hkey, hmet⟩ := hq x hx
  exact ⟨b, h.tables.mem_objs hb, hkey, h.met hmet⟩

/-- A request that is granted stays granted. -/
theorem Gains.granted (h : Gains p opts A D s t) {r : Request} (hr : r.Granted s) :
    r.Granted t := by
  cases r with
  | touch => exact trivial
  | pointTo ctx v os => exact h.hasObjects hr
  | add q os => exact h.hasObjects hr
  | flow a b => exact h.facts hr

/-- Objects that are added to a pointer wait for it. -/
theorem requested_addObjects (hs : s.Ok K) (q : Pointer) (os : List (Context × Obj))
    (hK : ∀ x ∈ os, x.2 ∈ K) :
    ∃ new, Requested (Request.objectFacts K q os) s (s.addObjects q os) new ∧
      Tables (s.addObjects q os) ∧ (∀ o ∈ (s.addObjects q os).objs, o ∈ K) ∧
      Request.HasObjects (s.addObjects q os) q os := by
  obtain ⟨htables, hle, hsame, hmem, hnames, hall, hrows⟩ := hs.tables.internAll os
  have htouch := sameTables_touch (s.internAll os).1 q
  have heq : s.addObjects q os = ((s.internAll os).1.touch q).addPointsTo q (s.internAll os).2 := rfl
  have hst : SameTables (s.internAll os).1 (s.addObjects q os) := by
    rw [heq]
    exact htouch.trans ⟨rfl, rfl, rfl, rfl⟩
  have hobjs : ∀ o ∈ (s.addObjects q os).objs, o ∈ K := by
    intro o ho
    rw [hst.objs] at ho
    rcases hmem o ho with ho | ⟨x, hx, rfl⟩
    · exact hs.objs o ho
    · exact hK x hx
  have hwait : (s.addObjects q os).waiting.toList =
      s.waiting.toList ++ [(q, (s.internAll os).2)] := by
    rw [heq]
    simp [addPointsTo, hsame.waiting]
  refine ⟨_, ⟨hle.trans hst.tableLe, ?_, ?_, ?_, ?_, hwait, ?_, ?_, ?_⟩, hst.tables htables, hobjs,
    ?_⟩
  · intro hlisted
    have hlisted' : (s.internAll os).1.Listed := by
      unfold Listed
      rw [hsame.sets, hsame.pointers]
      exact hlisted
    exact (hlisted'.touch q).1
  · intro a
    rw [heq]
    show ((s.internAll os).1.touch q).pointsTo a = s.pointsTo a
    rw [touch_pointsTo]
    simp [pointsTo, hsame.sets]
  · rw [heq]
    show ((s.internAll os).1.touch q).graph = s.graph
    rw [touch_graph, hsame.graph]
  · intro a b
    have hsucc : (s.addObjects q os).succsOf a = s.succsOf a := by
      rw [heq]
      show ((s.internAll os).1.touch q).succsOf a = s.succsOf a
      rw [touch_succsOf]
      simp [succsOf, hsame.succs]
    rw [hsucc]
    simp [Request.objectFacts]
  · intro a set hq i hi
    obtain ⟨rfl, rfl⟩ := Prod.mk.inj (List.mem_singleton.mp hq)
    obtain ⟨x, hx, b, hkey, hb⟩ := hnames i hi
    have hb' := hst.tableLe.names hb
    exact ⟨_, hb', Or.inl ⟨x, hx, b, hobjs b hb'.obj_mem, hkey, rfl⟩⟩
  · intro i o ho
    refine (hrows i o (hst.names ho)).imp_right fun hi => ⟨_, _, List.mem_singleton.mpr rfl, hi⟩
  · rintro a b o ⟨x, _, c, _, _, hf⟩
    cases hf
  · intro x hx
    obtain ⟨i, hi, b, hkey, hb⟩ := hall x hx
    have hb' := hst.tableLe.names hb
    refine ⟨b, hb'.obj_mem, hkey, Or.inr ⟨_, _, i, _, rfl, ?_, hi, hb'⟩⟩
    rw [hwait]
    simp

/-- So the core gains the facts that the pointer holds them. -/
theorem gains_addObjects (p : Program) (opts : Options) (hs : s.Ok K) (q : Pointer)
    (os : List (Context × Obj)) (hK : ∀ x ∈ os, x.2 ∈ K) :
    (s.addObjects q os).Ok K ∧ Gains p opts (Request.objectFacts K q os) ∅ s (s.addObjects q os) ∧
      Request.HasObjects (s.addObjects q os) q os := by
  obtain ⟨new, h, htables, hobjs, hhas⟩ := requested_addObjects hs q os hK
  exact ⟨h.ok hs htables hobjs, h.gains hs, hhas⟩

/-- Carrying out a request keeps the core in order, grants the request, and gains what it asks
for. -/
theorem gains_carryOut (p : Program) (opts : Options) (hs : s.Ok K) (r : Request)
    (hK : ∀ x ∈ r.objs, x.2 ∈ K) :
    (s.carryOut r).Ok K ∧ Gains p opts (r.asks K) ∅ s (s.carryOut r) ∧
    r.Granted (s.carryOut r) := by
  cases r with
  | touch ctx v =>
    have h := requested_touch s (.var ctx v)
    have htables := sameTables_touch s (.var ctx v)
    refine ⟨h.ok hs (htables.tables hs.tables) ?_, h.gains hs, trivial⟩
    intro o ho
    rw [htables.objs] at ho
    exact hs.objs o ho
  | pointTo ctx v os => exact gains_addObjects p opts hs (.var ctx v) os hK
  | add q os => exact gains_addObjects p opts hs q os hK
  | flow a b =>
    obtain ⟨A, hA, new, h, htables, hflow⟩ := requested_addFlow hs a b
    refine ⟨h.ok hs (htables.tables hs.tables) ?_, (h.gains hs).mono hA subset_rfl, hflow⟩
    intro o ho
    rw [htables.objs] at ho
    exact hs.objs o ho

/-- Carrying out requests keeps the core in order, grants them all, and gains what they ask for. -/
theorem gains_carryOutAll (p : Program) (opts : Options) (hs : s.Ok K) (rs : List Request)
    (hK : ∀ r ∈ rs, ∀ x ∈ r.objs, x.2 ∈ K) :
    (s.carryOutAll rs).Ok K ∧ Gains p opts {f | ∃ r ∈ rs, f ∈ r.asks K} ∅ s (s.carryOutAll rs) ∧
      ∀ r ∈ rs, r.Granted (s.carryOutAll rs) := by
  induction rs generalizing s with
  | nil => exact ⟨hs, (Gains.refl s).mono (Set.empty_subset _) subset_rfl, by simp⟩
  | cons r rs ih =>
    obtain ⟨h₁, hgain₁, hgrant₁⟩ := gains_carryOut p opts hs r (hK r List.mem_cons_self)
    obtain ⟨h₂, hgain₂, hgrant₂⟩ := ih h₁ fun r' hr' => hK r' (List.mem_cons_of_mem _ hr')
    refine ⟨h₂, (hgain₁.trans hgain₂).mono ?_ (by simp), ?_⟩
    · rintro f (hf | ⟨r', hr', hf⟩)
      · exact ⟨r, List.mem_cons_self, hf⟩
      · exact ⟨r', List.mem_cons_of_mem _ hr', hf⟩
    · intro r' hr'
      rcases List.mem_cons.mp hr' with rfl | hr'
      · exact hgain₂.granted hgrant₁
      · exact hgrant₂ r' hr'

/-- The tables, pointers, points-to sets, flows, call graph and worklist are all that facts are made
of. -/
theorem gains_of_same (p : Program) (opts : Options) (hs : s.Ok K) (htables : SameTables s t)
    (hstate : SameState s t) : t.Ok K ∧ Gains p opts ∅ ∅ s t := by
  have hlisted : s.Listed → t.Listed := by
    unfold Listed
    rw [hstate.sets, hstate.pointers]
    exact id
  have hset : ∀ q, t.pointsTo q = s.pointsTo q := fun q => by simp [pointsTo, hstate.sets]
  have h : Requested ∅ s t [] := by
    refine ⟨htables.tableLe, hlisted, hset, hstate.graph, ?_, by simp [hstate.waiting], by simp,
      fun ho => Or.inl (htables.names ho), by simp⟩
    intro a b
    simp [succsOf, hstate.succs]
  refine ⟨h.ok hs (htables.tables hs.tables) ?_, h.gains hs⟩
  rw [htables.objs]
  exact hs.objs

end Core

end WholeProgram.PointsTo
