import Mathlib.Data.List.Basic
import WholeProgram.ControlFlow.Graph
import WholeProgram.Program.Builder
import WholeProgram.Proofs.Program.Places

/-!
# Well-formed programs

Programs refer to variables and statements by number. In a program that comes out of a builder the
numbers are those of something: jumps go to statements of their method, variables are declared, and a
receiver holds an object.

* `Program.WellFormed` — these conditions;
* `Builder.Made` — what the operations of a builder make;
* `Builder.Made.sound` — every operation keeps the drafts in order;
* `Builder.wellFormed_of_build` — so every program that is built is well-formed.
-/

namespace WholeProgram

namespace Stmt

variable {τ υ : Type}

/-- The places that the statement jumps to. -/
def targets : Stmt τ → List τ
  | branch _ _ _ t | jump t => [t]
  | switch _ cs d => cs.map (·.2) ++ [d]
  | _ => []

/-- The variables that the statement defines or reads. -/
def mentions (s : Stmt τ) : List VarId := s.defined?.toList ++ s.uses

@[simp]
theorem mentions_mapTargets (f : τ → υ) (s : Stmt τ) : (s.mapTargets f).mentions = s.mentions := by
  cases s <;> rfl

@[simp]
theorem call?_mapTargets (f : τ → υ) (s : Stmt τ) : (s.mapTargets f).call? = s.call? := by
  cases s <;> rfl

@[simp]
theorem targets_mapTargets (f : τ → υ) (s : Stmt τ) :
    (s.mapTargets f).targets = s.targets.map f := by
  cases s <;> simp [mapTargets, targets]

end Stmt

/-- The parts of the program refer to each other properly. -/
structure Program.WellFormed (p : Program) : Prop where
  targets : ∀ m, ∀ e ∈ (p.method m).edges, e.target < (p.method m).numNodes
  declared : ∀ m, ∀ v ∈ (p.method m).mentioned, v < p.vars.size
  receiver : ∀ m r, (p.method m).receiver = some r → p.holdsInt r = false

/-- What is no variable of the program holds no integers. -/
theorem Program.lt_of_holdsInt {p : Program} {v : VarId} (h : p.holdsInt v = true) :
    v < p.vars.size := by
  by_contra hge
  simp only [holdsInt, varTy, Array.getElem?_eq_none (Nat.le_of_not_lt hge)] at h
  cases h

namespace Method

variable {m : Method} {n : Nat} {e : Edge}

/-- Edges lead to nodes where jumps go to statements. -/
theorem target_lt_of_mem_outEdges
    (h : ∀ i s, m.stmt? i = some s → ∀ t ∈ s.targets, t < m.body.size) (he : e ∈ m.outEdges n) :
    e.target < m.numNodes := by
  unfold numNodes
  cases n with
  | zero =>
    obtain rfl := List.mem_singleton.mp he
    show 1 < _
    omega
  | succ i =>
    cases hs : m.stmt? i with
    | none =>
      simp only [outEdges, hs] at he
      cases he
    | some s =>
      have hi : i < m.body.size := by
        obtain ⟨c, hc, _⟩ := Option.map_eq_some_iff.mp hs
        exact (Array.getElem?_eq_some_iff.mp hc).1
      have ht := h i s hs
      simp only [outEdges, hs] at he
      cases s with
      | jump t =>
        obtain rfl := List.mem_singleton.mp he
        have := ht t List.mem_cons_self
        dsimp only
        omega
      | branch op x y t =>
        rcases List.mem_pair.mp he with rfl | rfl
        · have := ht t List.mem_cons_self
          dsimp only
          omega
        · dsimp only
          omega
      | switch v cases d =>
        rcases List.mem_append.mp he with he | he
        · obtain ⟨c, hc, rfl⟩ := List.mem_map.mp he
          have := ht c.2 (List.mem_append_left _ (List.mem_map_of_mem hc))
          dsimp only
          omega
        · obtain rfl := List.mem_singleton.mp he
          have := ht d (List.mem_append_right _ List.mem_cons_self)
          dsimp only
          omega
      | ret v =>
        obtain rfl := List.mem_singleton.mp he
        show m.exit < _
        unfold exit
        omega
      | _ =>
        obtain rfl := List.mem_singleton.mp he
        dsimp only
        omega

theorem mem_mentioned_iff {v : VarId} :
    v ∈ m.mentioned ↔ m.receiver = some v ∨ v ∈ m.params ∨ ∃ i ∈ m.body, v ∈ i.stmt.mentions := by
  simp [mentioned, Stmt.mentions]

end Method

/-- Whether a program is well-formed can be checked method by method. -/
theorem Program.wellFormed_of_methods {p : Program}
    (h : ∀ m ∈ p.methods.toList, (∀ e ∈ m.edges, e.target < m.numNodes) ∧
      (∀ v ∈ m.mentioned, v < p.vars.size) ∧ m.receiver.all (fun r => !p.holdsInt r) = true) :
    p.WellFormed := by
  refine ⟨fun m => ?_, fun m => ?_, fun m r hr => ?_⟩ <;>
    rcases p.method_mem_or_default m with hm | hm
  · exact (h _ hm).1
  · rw [hm]
    decide
  · exact (h _ hm).2.1
  · rw [hm]
    intro v hv
    cases hv
  · simpa [hr] using (h _ hm).2.2
  · rw [hm] at hr
    cases hr

/-! ## Drafts in order -/

/-- What a draft refers to is there. -/
structure Draft.Sound (vars : Array Var) (d : Draft) : Prop where
  receiver : ∀ r, d.header.receiver = some r → ∃ x, vars[r]? = some x ∧ x.ty.holdsInt = false
  params : ∀ v ∈ d.header.params, v < vars.size
  code : ∀ c ∈ d.code, ∀ v ∈ c.1.mentions, v < vars.size
  labels : ∀ l i : Nat, d.labels[l]? = some (some i) → i < d.code.size

namespace Draft

variable {vars : Array Var} {d : Draft}

theorem Sound.push_var (h : d.Sound vars) (x : Var) : d.Sound (vars.push x) where
  receiver r hr := by
    obtain ⟨y, hy, hty⟩ := h.receiver r hr
    obtain ⟨hlt, hget⟩ := Array.getElem?_eq_some_iff.mp hy
    exact ⟨y, by rw [Array.getElem?_push_lt hlt, hget], hty⟩
  params v hv := Nat.lt_of_lt_of_le (h.params v hv) (by simp)
  code c hc v hv := Nat.lt_of_lt_of_le (h.code c hc v hv) (by simp)
  labels := h.labels

/-- A draft with the same code and the same labels stays in order when its header does. -/
theorem Sound.of_header {e : Draft} (h : d.Sound vars) (hcode : e.code = d.code)
    (hlabels : e.labels = d.labels) (hrecv : e.header.receiver = d.header.receiver)
    (hparams : e.header.params = d.header.params) : e.Sound vars where
  receiver r hr := h.receiver r (hrecv ▸ hr)
  params v hv := h.params v (hparams ▸ hv)
  code c hc := h.code c (hcode ▸ hc)
  labels l i hl := hcode ▸ h.labels l i (hlabels ▸ hl)

theorem foldl_bind (pending : List Label) (labels : Array (Option Nat)) (k l i : Nat)
    (h : (pending.foldl (fun ls l => ls.setIfInBounds l (some k)) labels)[l]? = some (some i)) :
    i = k ∨ labels[l]? = some (some i) := by
  induction pending generalizing labels with
  | nil => exact Or.inr h
  | cons a pending ih =>
    rcases ih _ h with h | h
    · exact Or.inl h
    · rw [Array.getElem?_setIfInBounds] at h
      split at h
      · split at h
        · cases h
          exact Or.inl rfl
        · cases h
      · exact Or.inr h

theorem Sound.push (h : d.Sound vars) {s : Stmt Label} (hs : ∀ v ∈ s.mentions, v < vars.size) :
    (d.push s).Sound vars where
  receiver := h.receiver
  params := h.params
  code c hc := by
    rcases Array.mem_push.mp hc with hc | rfl
    · exact h.code c hc
    · exact hs
  labels l i hl := by
    have hsize : (d.push s).code.size = d.code.size + 1 := Array.size_push _
    rw [hsize]
    rcases foldl_bind _ _ _ _ _ hl with rfl | hl
    · exact Nat.lt_succ_self _
    · exact Nat.lt_succ_of_lt (h.labels l i hl)

/-- The jumps of the finished method go to its statements. -/
theorem Sound.target_lt (h : d.Sound vars) {i : Nat} {s : Stmt Nat}
    (hs : d.toMethod.stmt? i = some s) {t : Nat} (ht : t ∈ s.targets) :
    t < d.toMethod.body.size := by
  obtain ⟨c, hc, rfl⟩ := Option.map_eq_some_iff.mp hs
  simp only [toMethod, Array.getElem?_map] at hc
  obtain ⟨a, ha, rfl⟩ := Option.map_eq_some_iff.mp hc
  rw [Stmt.targets_mapTargets] at ht
  obtain ⟨l, _, rfl⟩ := List.mem_map.mp ht
  have hpos : 0 < d.code.size := Nat.zero_lt_of_lt (Array.getElem?_eq_some_iff.mp ha).1
  simp only [toMethod, Array.size_map]
  -- a label that is bound to nothing goes to the first statement
  cases hl : d.labels[l]? with
  | none => exact hpos
  | some b =>
    cases b with
    | none => exact hpos
    | some k => exact h.labels l k hl

end Draft

namespace Builder

/-- What the operations of a builder make. Statements are about variables that are declared. -/
inductive Made : Builder → Prop
  | empty : Made {}
  | implement {b : Builder} (c i : ClassId) : Made b → Made (b.implement c i)
  | addClass {b : Builder} (name : String) (form : ClassForm) (super : Option ClassId)
      (interfaces : List ClassId) : Made b → Made (b.addClass name form super interfaces).1
  | addField {b : Builder} (c : ClassId) (name : String) (ty : Ty) (isStatic : Bool) : Made b →
      Made (b.addField c name ty isStatic).1
  | ensureField {b : Builder} (c : ClassId) (name : String) (ty : Ty) : Made b →
      Made (b.ensureField c name ty).1
  | addVar {b : Builder} (m : MethodId) (name : String) (ty : Ty) : Made b →
      Made (b.addVar m name ty).1
  | addMethod {b : Builder} (c : ClassId) (spec : MethodSpec) : Made b → Made (b.addMethod c spec).1
  | newLabel {b : Builder} (m : MethodId) : Made b → Made (b.newLabel m).1
  | bind {b : Builder} (m : MethodId) (l : Label) : Made b → Made (b.bind m l)
  | setPos {b : Builder} (m : MethodId) (pos : Option String) : Made b → Made (b.setPos m pos)
  | add {b : Builder} (m : MethodId) {s : Stmt Label} : (∀ v ∈ s.mentions, v < b.vars.size) →
      Made b → Made (b.add m s)
  | addBranch {b b' : Builder} {m : MethodId} {op : BinaryOp} {x y : VarId} {target : Label} :
      x < b.vars.size → y < b.vars.size → b.addBranch m op x y target = .ok b' → Made b → Made b'
  | addSwitch {b : Builder} (m : MethodId) {v : VarId} (values : List Int64) (targets : List Label)
      (default : Label) : v < b.vars.size → Made b → Made (b.addSwitch m v values targets default)
  | setEntries {b : Builder} (ms : List MethodId) : Made b → Made { b with entries := ms }

/-- The drafts of the builder are in order. -/
def Sound (b : Builder) : Prop := ∀ (m : MethodId) (d : Draft), b.drafts[m]? = some d → d.Sound b.vars

variable {b b' : Builder}

theorem Sound.congr (h : b.Sound) (hdrafts : b'.drafts = b.drafts) (hvars : b'.vars = b.vars) :
    b'.Sound := by
  intro m d hd
  rw [hvars]
  exact h m d (hdrafts ▸ hd)

/-- One draft changes, and stays in order. -/
theorem Sound.modify (h : b.Sound) (m : MethodId) {f : Draft → Draft}
    (hf : ∀ d : Draft, d.Sound b.vars → (f d).Sound b.vars) :
    Sound { b with drafts := b.drafts.modify m f } := by
  intro k d hd
  rw [Array.getElem?_modify] at hd
  split at hd
  · obtain ⟨e, he, rfl⟩ := Option.map_eq_some_iff.mp hd
    exact hf e (h k e he)
  · exact h k d hd

theorem Sound.ite {c : Prop} [Decidable c] (h : b.Sound) (h' : b'.Sound) :
    (if c then b else b').Sound := by
  split
  · exact h
  · exact h'

theorem Sound.fail (h : b.Sound) (e : BuildError) : (b.fail e).Sound := h.congr rfl rfl

/-! ## Operations that leave the drafts alone -/

theorem implement_same (b : Builder) (c i : ClassId) :
    (b.implement c i).drafts = b.drafts ∧ (b.implement c i).vars = b.vars := by
  unfold implement
  split
  · exact ⟨rfl, rfl⟩
  · split <;> exact ⟨rfl, rfl⟩

theorem Sound.implement (h : b.Sound) (c i : ClassId) : (b.implement c i).Sound :=
  h.congr (implement_same b c i).1 (implement_same b c i).2

theorem Sound.addClass (h : b.Sound) (name : String) (form : ClassForm) (super : Option ClassId)
    (interfaces : List ClassId) : (b.addClass name form super interfaces).1.Sound := by
  unfold Builder.addClass
  split
  · exact h.fail _
  · refine List.foldlRecOn interfaces _ ?_ fun b hb i _ => hb.implement _ i
    exact h.congr rfl rfl

theorem Sound.addField (h : b.Sound) (c : ClassId) (name : String) (ty : Ty) (isStatic : Bool) :
    (b.addField c name ty isStatic).1.Sound := by
  unfold Builder.addField
  split
  · exact h.fail _
  · exact h.congr rfl rfl

theorem Sound.ensureField (h : b.Sound) (c : ClassId) (name : String) (ty : Ty) :
    (b.ensureField c name ty).1.Sound := by
  unfold Builder.ensureField
  split
  · exact h
  · exact h.addField c name ty false

/-! ## Methods and bodies -/

theorem Sound.addVar (h : b.Sound) (m : MethodId) (name : String) (ty : Ty) :
    (b.addVar m name ty).1.Sound := by
  have hpush : Sound { b with vars := (b.addVar m name ty).1.vars } :=
    fun k d hd => (h k d hd).push_var _
  exact hpush.modify m fun d hd => hd.of_header rfl rfl rfl rfl

theorem getElem?_vars_addVar (b : Builder) (m : MethodId) (name : String) (ty : Ty) :
    ∃ x, (b.addVar m name ty).1.vars[(b.addVar m name ty).2]? = some x ∧ x.ty = ty := by
  simp [Builder.addVar]

/-- Declares a variable for the receiver of a method. -/
def addReceiver (b : Builder) (m : MethodId) (c : ClassId) : Builder :=
  let (b, v) := b.addVar m "this" (.ref c)
  { b with drafts := b.drafts.modify m fun d => { d with header := { d.header with receiver := some v } } }

/-- Declares a variable for one more parameter of a method. -/
def addParam (b : Builder) (m : MethodId) (q : String × Ty) : Builder :=
  let (b, v) := b.addVar m q.1 q.2
  { b with drafts := b.drafts.modify m fun d =>
      { d with header := { d.header with params := d.header.params.push v } } }

theorem Sound.addReceiver (h : b.Sound) (m : MethodId) (c : ClassId) : (b.addReceiver m c).Sound := by
  obtain ⟨x, hx, hty⟩ := getElem?_vars_addVar b m "this" (.ref c)
  refine (h.addVar m "this" (.ref c)).modify m fun d hd => ⟨?_, hd.params, hd.code, hd.labels⟩
  rintro r ⟨⟩
  exact ⟨x, hx, hty ▸ rfl⟩

theorem Sound.addParam (h : b.Sound) (m : MethodId) (q : String × Ty) : (b.addParam m q).Sound := by
  obtain ⟨x, hx, _⟩ := getElem?_vars_addVar b m q.1 q.2
  refine (h.addVar m q.1 q.2).modify m fun d hd => ⟨hd.receiver, ?_, hd.code, hd.labels⟩
  intro v hv
  rcases Array.mem_push.mp hv with hv | rfl
  · exact hd.params v hv
  · exact (Array.getElem?_eq_some_iff.mp hx).1

@[simp]
theorem drafts_openMethod (b : Builder) (header : Method) :
    (b.openMethod header).drafts = b.drafts.push { header } := rfl

/-- Declares a method with its receiver and its parameters. No class lists it yet. -/
def declare (b : Builder) (c : ClassId) (spec : MethodSpec) : Builder :=
  let m := b.drafts.size
  let blank : Method :=
    { name := spec.name, cls := c, isStatic := spec.isStatic, isAbstract := spec.isAbstract
      subsig := subsignature b.className spec.name (spec.params.map (·.2))
      returns := spec.returns, receiver := none, params := #[], vars := #[], body := #[]
      pos := spec.pos }
  let b := b.openMethod blank
  spec.params.foldl (fun b q => b.addParam m q) (if spec.isStatic then b else b.addReceiver m c)

theorem Sound.declare (h : b.Sound) (c : ClassId) (spec : MethodSpec) : (b.declare c spec).Sound := by
  have hnew : ∀ header : Method, header.receiver = none → header.params = #[] →
      Sound (b.openMethod header) := by
    intro header hrecv hparams k d hd
    rw [drafts_openMethod, Array.getElem?_push] at hd
    split at hd
    · cases hd
      exact ⟨by simp [hrecv], by simp [hparams], by simp, by simp⟩
    · exact h k d hd
  exact List.foldlRecOn _ _ (.ite (hnew _ rfl rfl) ((hnew _ rfl rfl).addReceiver _ c))
    fun b hb q _ => hb.addParam _ q

/-- Then the class lists the method, unless it has one with the same subsignature. -/
theorem addMethod_eq (b : Builder) (c : ClassId) (spec : MethodSpec) :
    b.addMethod c spec =
      let m := b.drafts.size
      let subsig := subsignature b.className spec.name (spec.params.map (·.2))
      let b := b.declare c spec
      if ((b.classes[c]?.map (·.methods)).getD #[]).any fun k => (b.header k).subsig == subsig then
        (b.fail (.duplicateMethod (b.signature m)), m)
      else
        ({ b with classes := b.classes.modify c fun d => { d with methods := d.methods.push m } }, m) :=
  rfl

theorem Sound.addMethod (h : b.Sound) (c : ClassId) (spec : MethodSpec) :
    (b.addMethod c spec).1.Sound := by
  have hdeclare := h.declare c spec
  rw [addMethod_eq]
  generalize b.declare c spec = d at hdeclare
  dsimp only
  split
  · exact hdeclare.fail _
  · exact hdeclare.congr rfl rfl

theorem Sound.add (h : b.Sound) (m : MethodId) {s : Stmt Label}
    (hs : ∀ v ∈ s.mentions, v < b.vars.size) : (b.add m s).Sound := by
  unfold Builder.add
  split
  · exact (h.fail _).modify m fun d hd => hd.push hs
  · exact h.modify m fun d hd => hd.push hs

/-! Branches and switches are statements that are added after a check. -/

section Checked

variable {m : MethodId} {op : BinaryOp} {x y v : VarId} {target default : Label} {cases : List (Int64 × Label)}

theorem addBranch_ok (h : b.addBranch m op x y target = .ok b') :
    b' = b.add m (.branch op x y target) ∨ ∃ e, b' = (b.fail e).add m (.branch op x y target) := by
  unfold Builder.addBranch at h
  split at h
  · cases h
  · obtain rfl := Except.ok.inj h
    split
    · exact Or.inl rfl
    · exact Or.inr ⟨_, rfl⟩

theorem addSwitch_eq (b : Builder) (m : MethodId) (v : VarId) (values : List Int64) (targets : List Label)
    (default : Label) :
    b.addSwitch m v values targets default = b.add m (.switch v (values.zip targets) default) ∨
      ∃ e, b.addSwitch m v values targets default = (b.fail e).add m (.switch v (values.zip targets) default) := by
  unfold Builder.addSwitch
  dsimp only
  split
  · exact Or.inl rfl
  · exact Or.inr ⟨_, rfl⟩

theorem mentions_branch_lt {n : Nat} (hx : x < n) (hy : y < n) :
    ∀ w ∈ (Stmt.branch op x y target).mentions, w < n := by
  intro w hw
  rcases List.mem_pair.mp hw with rfl | rfl
  · exact hx
  · exact hy

theorem mentions_switch_lt {n : Nat} (hv : v < n) : ∀ w ∈ (Stmt.switch v cases default).mentions, w < n := by
  intro w hw
  obtain rfl := List.mem_singleton.mp hw
  exact hv

end Checked

/-- Every operation keeps the drafts in order. -/
theorem Made.sound (h : Made b) : b.Sound := by
  induction h with
  | empty =>
    intro m d hd
    simp at hd
  | implement c i _ ih => exact ih.implement c i
  | addClass name form super interfaces _ ih => exact ih.addClass name form super interfaces
  | addField c name ty isStatic _ ih => exact ih.addField c name ty isStatic
  | ensureField c name ty _ ih => exact ih.ensureField c name ty
  | addVar m name ty _ ih => exact ih.addVar m name ty
  | addMethod c spec _ ih => exact ih.addMethod c spec
  | newLabel m _ ih =>
    refine ih.modify m fun d hd => ⟨hd.receiver, hd.params, hd.code, fun l i hl => ?_⟩
    rw [Array.getElem?_push] at hl
    split at hl
    · cases hl
    · exact hd.labels l i hl
  | bind m l _ ih => exact ih.modify m fun d hd => hd.of_header rfl rfl rfl rfl
  | setPos m pos _ ih => exact ih.modify m fun d hd => hd.of_header rfl rfl rfl rfl
  | add m hs _ ih => exact ih.add m hs
  | addBranch hx hy hadd _ ih =>
    rcases addBranch_ok hadd with rfl | ⟨e, rfl⟩
    · exact ih.add _ (mentions_branch_lt hx hy)
    · exact (ih.fail e).add _ (mentions_branch_lt hx hy)
  | addSwitch m values targets default hv _ ih =>
    rcases addSwitch_eq _ m _ values targets default with heq | ⟨e, heq⟩ <;> rw [heq]
    · exact ih.add m (mentions_switch_lt hv)
    · exact (ih.fail e).add m (mentions_switch_lt hv)
  | setEntries ms _ ih => exact ih.congr rfl rfl

/-! ## The finished program -/

theorem Sound.finish (h : b.Sound) (m : MethodId) : (b.finish m).Sound := by
  unfold Builder.finish
  refine Sound.congr (List.foldlRecOn _ _ ?_ fun b hb l _ => (hb.fail _).ite hb) rfl rfl
  exact h.ite (h.add m (by simp [Stmt.mentions, Stmt.defined?, Stmt.uses]))

/-- The program of drafts in order is well-formed. -/
theorem Sound.wellFormed {p : Program} (h : b.Sound) (hvars : p.vars = b.vars)
    (hmethods : p.methods = b.drafts.map Draft.toMethod) : p.WellFormed := by
  have hmethod : ∀ m, p.method m = default ∨ ∃ d : Draft, d.Sound p.vars ∧ p.method m = d.toMethod := by
    intro m
    simp only [Program.method, Array.getD_eq_getD_getElem?, hmethods, Array.getElem?_map]
    cases hd : b.drafts[m]? with
    | none => exact Or.inl rfl
    | some d => exact Or.inr ⟨d, hvars ▸ h m d hd, rfl⟩
  refine ⟨fun m e he => ?_, fun m v hv => ?_, fun m r hr => ?_⟩
  · obtain ⟨n, _, he⟩ := List.mem_flatMap.mp he
    rcases hmethod m with hm | ⟨d, hd, hm⟩
    · rw [hm] at he ⊢
      refine Method.target_lt_of_mem_outEdges (fun i s hs => ?_) he
      cases hs
    · rw [hm] at he ⊢
      exact Method.target_lt_of_mem_outEdges (fun i s hs t ht => hd.target_lt hs ht) he
  · rcases hmethod m with hm | ⟨d, hd, hm⟩
    · rw [hm] at hv
      cases hv
    · rw [hm] at hv
      rcases Method.mem_mentioned_iff.mp hv with hr | hparam | ⟨i, hi, hv⟩
      · obtain ⟨x, hx, _⟩ := hd.receiver v hr
        exact (Array.getElem?_eq_some_iff.mp hx).1
      · exact hd.params v hparam
      · obtain ⟨c, hc, rfl⟩ := Array.mem_map.mp hi
        rw [Stmt.mentions_mapTargets] at hv
        exact hd.code c hc v hv
  · rcases hmethod m with hm | ⟨d, hd, hm⟩
    · rw [hm] at hr
      cases hr
    · rw [hm] at hr
      obtain ⟨x, hx, hty⟩ := hd.receiver r hr
      simp only [Program.holdsInt, Program.varTy, hx, Option.map_some, Option.getD_some, hty]

/-- Every program that is built is well-formed. -/
theorem wellFormed_of_build {p : Program} (hb : Made b) (h : b.build = .ok p) : p.WellFormed := by
  have hsound : ((List.range b.drafts.size).foldl Builder.finish b).Sound :=
    List.foldlRecOn _ _ hb.sound fun b hb m _ => hb.finish m
  unfold build at h
  dsimp only at h
  split at h
  · obtain rfl := Except.ok.inj h
    exact hsound.wellFormed rfl rfl
  · cases h

end Builder

end WholeProgram
