import WholeProgram.Proofs.Builder.Drafts
import WholeProgram.Proofs.Program.WellFormed

/-!
# Sequences of operations of a builder

* `Builder.Operation` — a call of a builder, and `perform`, what it does;
* `Builder.Operation.Fits` — the call is about classes and methods that are there, and a body is about the
  variables and labels of its own method;
* `Builder.History` — a sequence of such calls that makes a builder, and `performAll?`, which makes it;
* `Builder.Effect` — what a call without fault does, in one case for each kind of change;
* `Builder.statements`, `Builder.LastBound` — what a sequence says about the body of a method.
-/

namespace WholeProgram

namespace Builder

variable {b b' : Builder}

/-- A call of a builder. -/
inductive Operation where
  | addClass (name : String) (form : ClassForm) (super : Option ClassId) (interfaces : List ClassId)
  | implement (c i : ClassId)
  | addField (c : ClassId) (name : String) (ty : Ty) (isStatic : Bool)
  | ensureField (c : ClassId) (name : String) (ty : Ty)
  | addMethod (c : ClassId) (spec : MethodSpec)
  | addVar (m : MethodId) (name : String) (ty : Ty)
  | newLabel (m : MethodId)
  | bind (m : MethodId) (l : Label)
  | setPos (m : MethodId) (pos : Option String)
  | add (m : MethodId) (s : Stmt Label)
  | addBranch (m : MethodId) (op : BinaryOp) (x y : VarId) (target : Label)
  | addSwitch (m : MethodId) (v : VarId) (values : List Int64) (targets : List Label) (default : Label)
  | setEntries (ms : List MethodId)

/-- The variable is one of the method. -/
def Owns (b : Builder) (m : MethodId) (v : VarId) : Prop := ∃ x, b.vars[v]? = some x ∧ x.method = m

/-- The label is one of the method. -/
def HasLabel (b : Builder) (m : MethodId) (l : Label) : Prop :=
  ∃ d : Draft, b.drafts[m]? = some d ∧ l < d.labels.size

/-- The method is there, and has the variables and the labels of the statement. -/
structure Suits (b : Builder) (m : MethodId) (s : Stmt Label) : Prop where
  method : m < b.drafts.size
  vars : ∀ v ∈ s.mentions, b.Owns m v
  labels : ∀ l ∈ s.targets, b.HasLabel m l

namespace Operation

/-- The builder after the call. -/
def perform (b : Builder) : Operation → Except Int Builder
  | addClass name form super interfaces => .ok (b.addClass name form super interfaces).1
  | implement c i => .ok (b.implement c i)
  | addField c name ty isStatic => .ok (b.addField c name ty isStatic).1
  | ensureField c name ty => .ok (b.ensureField c name ty).1
  | addMethod c spec => .ok (b.addMethod c spec).1
  | addVar m name ty => .ok (b.addVar m name ty).1
  | newLabel m => .ok (b.newLabel m).1
  | bind m l => .ok (b.bind m l)
  | setPos m pos => .ok (b.setPos m pos)
  | add m s => .ok (b.add m s)
  | addBranch m op x y target => b.addBranch m op x y target
  | addSwitch m v values targets default => .ok (b.addSwitch m v values targets default)
  | setEntries ms => .ok { b with entries := ms }

/-- The statement that the call adds, with its method. -/
def statement? : Operation → Option (MethodId × Stmt Label)
  | add m s => some (m, s)
  | addBranch m op x y target => some (m, .branch op x y target)
  | addSwitch m v values targets default => some (m, .switch v (values.zip targets) default)
  | _ => none

/-- The call is about what is there, and each method uses its own variables and labels only. -/
def Fits (b : Builder) : Operation → Prop
  | addClass _ _ super interfaces =>
    (∀ s ∈ super, s < b.classes.size) ∧ ∀ i ∈ interfaces, i < b.classes.size
  | implement c i => c < b.classes.size ∧ i < b.classes.size
  | addField c _ _ _ | ensureField c _ _ | addMethod c _ => c < b.classes.size
  | addVar m _ _ | newLabel m | setPos m _ => m < b.drafts.size
  | bind m l => b.HasLabel m l
  | add m s => b.Suits m s
  | addBranch m op x y target => b.Suits m (.branch op x y target)
  | addSwitch m v values targets default => b.Suits m (.switch v (values.zip targets) default)
  | setEntries ms => ∀ m ∈ ms, m < b.drafts.size

/-- The classes that the call names are there. -/
def Refers (b : Builder) : Operation → Prop
  | addClass _ _ super interfaces =>
    (∀ s ∈ super, s < b.classes.size) ∧ ∀ i ∈ interfaces, i < b.classes.size
  | implement c i => c < b.classes.size ∧ i < b.classes.size
  | addField c _ _ _ | ensureField c _ _ | addMethod c _ => c < b.classes.size
  | _ => True

theorem Fits.refers {o : Operation} (h : o.Fits b) : o.Refers b := by
  cases o with
  | addClass | implement | addField | ensureField | addMethod => exact h
  | _ => trivial

/-- The statements of calls that fit suit their methods. -/
theorem Fits.suits {o : Operation} (h : o.Fits b) {m : MethodId} {s : Stmt Label}
    (hs : o.statement? = some (m, s)) : b.Suits m s := by
  cases o with
  | add | addBranch | addSwitch =>
    cases hs
    exact h
  | _ => cases hs

end Operation

/-! Whether calls fit can be checked as they are made. -/

instance (b : Builder) (m : MethodId) (v : VarId) : Decidable (b.Owns m v) :=
  decidable_of_iff ((b.vars[v]?).any (·.method == m) = true) (by simp [Owns, Option.any_eq_true])

instance (b : Builder) (m : MethodId) (l : Label) : Decidable (b.HasLabel m l) :=
  decidable_of_iff ((b.drafts[m]?).any (l < ·.labels.size) = true) 
    (by simp [HasLabel, Option.any_eq_true])

instance (b : Builder) (m : MethodId) (s : Stmt Label) : Decidable (b.Suits m s) :=
  decidable_of_iff
    (m < b.drafts.size ∧ (∀ v ∈ s.mentions, b.Owns m v) ∧ ∀ l ∈ s.targets, b.HasLabel m l)
    ⟨fun h => ⟨h.1, h.2.1, h.2.2⟩, fun h => ⟨h.method, h.vars, h.labels⟩⟩

instance (b : Builder) : (o : Operation) → Decidable (o.Fits b)
  | .addClass _ _ super interfaces =>
    inferInstanceAs (Decidable ((∀ s ∈ super, s < b.classes.size) ∧ ∀ i ∈ interfaces, i < b.classes.size))
  | .implement c i => inferInstanceAs (Decidable (c < b.classes.size ∧ i < b.classes.size))
  | .addField c _ _ _ | .ensureField c _ _ | .addMethod c _ => inferInstanceAs (Decidable (c < b.classes.size))
  | .addVar m _ _ | .newLabel m | .setPos m _ => inferInstanceAs (Decidable (m < b.drafts.size))
  | .bind m l => inferInstanceAs (Decidable (b.HasLabel m l))
  | .add m s => inferInstanceAs (Decidable (b.Suits m s))
  | .addBranch m op x y target => inferInstanceAs (Decidable (b.Suits m (.branch op x y target)))
  | .addSwitch m v values targets default =>
    inferInstanceAs (Decidable (b.Suits m (.switch v (values.zip targets) default)))
  | .setEntries ms => inferInstanceAs (Decidable (∀ m ∈ ms, m < b.drafts.size))

/-- A sequence of calls, each of which fits, and the builder that it makes out of an empty one. -/
inductive History : List Operation → Builder → Prop
  | nil : History [] {}
  | snoc {ops : List Operation} {o : Operation} {b b' : Builder} : History ops b → o.Fits b →
      o.perform b = .ok b' → History (ops ++ [o]) b'

/-- The builder was made by calls about classes that are there; their bodies may mention anything. -/
inductive Session : Builder → Prop
  | start : Session {}
  | call {o : Operation} {b b' : Builder} : Session b → o.Refers b → o.perform b = .ok b' → Session b'

theorem History.session {ops : List Operation} (h : History ops b) : Session b := by
  induction h with
  | nil => exact .start
  | snoc _ hfits hperform ih => exact ih.call hfits.refers hperform

/-- The builder that a sequence of calls makes out of `b`, if each of them fits. -/
def performAll? (b : Builder) : List Operation → Option Builder
  | [] => some b
  | o :: ops => if o.Fits b then (o.perform b).toOption.bind (performAll? · ops) else none

theorem History.performAll {before ops : List Operation} (h : History before b)
    (hall : b.performAll? ops = some b') : History (before ++ ops) b' := by
  induction ops generalizing before b with
  | nil =>
    obtain rfl := Option.some.inj hall
    rwa [List.append_nil]
  | cons o ops ih =>
    rw [performAll?] at hall
    split at hall
    · rename_i hfits
      obtain ⟨b₁, hb₁, hall⟩ := Option.bind_eq_some_iff.mp hall
      cases hperform : o.perform b with
      | error n =>
        rw [hperform] at hb₁
        cases hb₁
      | ok b₂ =>
        rw [hperform] at hb₁
        obtain rfl := Option.some.inj hb₁
        rw [List.append_cons]
        exact ih (h.snoc hfits hperform) hall
    · cases hall

/-! ## What a call changes -/

/-- The class of `addClass`, without its interfaces. -/
def openClass (b : Builder) (name : String) (form : ClassForm) (super : Option ClassId) : Builder :=
  let classes := b.classes.push
    { name, super, isAbstract := form != .concrete, isInterface := form == .interface }
  { b with classes := match super with
      | some s => classes.modify s fun d => { d with subclasses := d.subclasses.push b.classes.size }
      | none => classes }

/-- A field that no check has looked at. -/
def pushField (b : Builder) (c : ClassId) (name : String) (ty : Ty) (isStatic : Bool) : Builder :=
  { b with
    fields := b.fields.push { name, cls := c, ty, isStatic }
    classes := b.classes.modify c fun d => { d with fields := d.fields.push b.fields.size } }

/-- Lists the method with its class. -/
def listMethod (b : Builder) (c : ClassId) (m : MethodId) : Builder :=
  { b with classes := b.classes.modify c fun d => { d with methods := d.methods.push m } }

/-- What a call without fault does. -/
inductive Effect (b : Builder) : Operation → Builder → Prop
  | addClass {name : String} (form : ClassForm) (super : Option ClassId) (interfaces : List ClassId) :
      b.findClass? name = none →
      Effect b (.addClass name form super interfaces)
        (interfaces.foldl (fun b' i => b'.implement b.classes.size i) (b.openClass name form super))
  | implement (c i : ClassId) : Effect b (.implement c i) (b.implement c i)
  | addField {c : ClassId} {name : String} (ty : Ty) (isStatic : Bool) : b.findField? c name = none →
      Effect b (.addField c name ty isStatic) (b.pushField c name ty isStatic)
  | hasField {c : ClassId} {name : String} (ty : Ty) {f : FieldId} : b.findField? c name = some f →
      Effect b (.ensureField c name ty) b
  | ensureField {c : ClassId} {name : String} (ty : Ty) : b.findField? c name = none →
      Effect b (.ensureField c name ty) (b.pushField c name ty false)
  | addMethod {c : ClassId} {spec : MethodSpec} :
      (∀ k ∈ (((b.declare c spec).classes[c]?.map (·.methods)).getD #[]),
        ((b.declare c spec).header k).subsig
          ≠ subsignature b.className spec.name (spec.params.map (·.2))) →
      Effect b (.addMethod c spec) ((b.declare c spec).listMethod c b.drafts.size)
  | addVar (m : MethodId) (name : String) (ty : Ty) : Effect b (.addVar m name ty) (b.addVar m name ty).1
  | newLabel (m : MethodId) : Effect b (.newLabel m) (b.newLabel m).1
  | bind (m : MethodId) (l : Label) : Effect b (.bind m l) (b.bind m l)
  | setPos (m : MethodId) (pos : Option String) : Effect b (.setPos m pos) (b.setPos m pos)
  | add {o : Operation} {m : MethodId} {s : Stmt Label} : o.statement? = some (m, s) →
      Effect b o (b.append m s)
  | setEntries (ms : List MethodId) : Effect b (.setEntries ms) { b with entries := ms }

theorem errors_fail (b : Builder) (e : BuildError) : (b.fail e).errors ≠ #[] := by simp [fail]

theorem errors_implement {c i : ClassId} (h : (b.implement c i).errors = #[]) : b.errors = #[] := by
  unfold implement at h
  split at h
  · exact absurd h (errors_fail _ _)
  · split at h <;> exact h

theorem errors_foldl_implement {c : ClassId} {interfaces : List ClassId}
    (h : (interfaces.foldl (fun b i => b.implement c i) b).errors = #[]) : b.errors = #[] := by
  induction interfaces generalizing b with
  | nil => exact h
  | cons i interfaces ih => exact errors_implement (ih h)

/-- A method is declared without faults. -/
theorem errors_declare (b : Builder) (c : ClassId) (spec : MethodSpec) :
    (b.declare c spec).errors = b.errors ∧ (b.declare c spec).classes = b.classes ∧
      (b.declare c spec).fields = b.fields := by
  refine List.foldlRecOn spec.params _
    (motive := fun d : Builder => d.errors = b.errors ∧ d.classes = b.classes ∧ d.fields = b.fields) ?_
    fun _ h _ _ => h
  split <;> exact ⟨rfl, rfl, rfl⟩

/-- A statement is added without fault only as it is. -/
theorem add_effect {m : MethodId} {s : Stmt Label} (h : (b.add m s).errors = #[]) :
    b.errors = #[] ∧ b.add m s = b.append m s := by
  obtain ⟨errors, heq, hnone⟩ := add_eq b m s
  rw [heq] at h ⊢
  obtain rfl : errors = #[] := h
  exact ⟨hnone rfl, by rw [← hnone rfl, append]⟩

/-- A check before a statement found nothing when there is no fault. -/
theorem add_checked_effect {P : Prop} [Decidable P] {e : BuildError} {m : MethodId} {s : Stmt Label}
    (h : ((if P then b else b.fail e).add m s).errors = #[]) :
    b.errors = #[] ∧ (if P then b else b.fail e).add m s = b.append m s := by
  by_cases hP : P
  · rw [if_pos hP] at h ⊢
    exact add_effect h
  · rw [if_neg hP] at h
    exact absurd (add_effect h).1 (errors_fail _ _)

/-- A class is added without fault only if its name is new. -/
theorem addClass_effect {name : String} {form : ClassForm} {super : Option ClassId}
    {interfaces : List ClassId} (h : (b.addClass name form super interfaces).1.errors = #[]) :
    b.errors = #[] ∧
      Effect b (.addClass name form super interfaces) (b.addClass name form super interfaces).1 := by
  cases hfind : b.findClass? name with
  | some c =>
    rw [Builder.addClass, hfind] at h
    exact absurd h (errors_fail _ _)
  | none =>
    have heq : (b.addClass name form super interfaces).1 =
        interfaces.foldl (fun b' i => b'.implement b.classes.size i) (b.openClass name form super) := by
      rw [Builder.addClass, hfind]
      rfl
    rw [heq] at h ⊢
    have hopen : (b.openClass name form super).errors = #[] := errors_foldl_implement h
    exact ⟨hopen, .addClass form super interfaces hfind⟩

/-- So it is with a field of a class. -/
theorem addField_effect {c : ClassId} {name : String} {ty : Ty} {isStatic : Bool}
    (h : (b.addField c name ty isStatic).1.errors = #[]) :
    b.errors = #[] ∧ b.findField? c name = none ∧
      (b.addField c name ty isStatic).1 = b.pushField c name ty isStatic := by
  cases hfind : b.findField? c name with
  | some f =>
    rw [Builder.addField, hfind] at h
    exact absurd h (errors_fail _ _)
  | none =>
    rw [Builder.addField, hfind] at h ⊢
    exact ⟨h, rfl, rfl⟩

/-- And with a method, which is known by its signature. -/
theorem addMethod_effect {c : ClassId} {spec : MethodSpec} (h : (b.addMethod c spec).1.errors = #[]) :
    b.errors = #[] ∧ Effect b (.addMethod c spec) (b.addMethod c spec).1 := by
  rw [addMethod_eq] at h ⊢
  dsimp only at h ⊢
  split at h
  · exact absurd h (errors_fail _ _)
  · rename_i hnew
    rw [if_neg hnew]
    refine ⟨(errors_declare b c spec).1 ▸ h, .addMethod fun k hk heq => hnew ?_⟩
    exact Array.any_eq_true'.mpr ⟨k, hk, by simpa using heq⟩

/-- Without a fault after the call there was none before, and the call had its effect. -/
theorem Operation.perform_effect {o : Operation} (h : o.perform b = .ok b') (hok : b'.errors = #[]) :
    b.errors = #[] ∧ Effect b o b' := by
  cases o with
  | addClass name form super interfaces =>
    cases h
    exact addClass_effect hok
  | implement c i =>
    cases h
    exact ⟨errors_implement hok, .implement c i⟩
  | addField c name ty isStatic =>
    cases h
    obtain ⟨hold, hfind, heq⟩ := addField_effect hok
    rw [heq]
    exact ⟨hold, .addField ty isStatic hfind⟩
  | ensureField c name ty =>
    cases h
    cases hfind : b.findField? c name with
    | some f =>
      rw [Builder.ensureField, hfind] at hok ⊢
      exact ⟨hok, .hasField ty hfind⟩
    | none =>
      rw [Builder.ensureField, hfind] at hok ⊢
      obtain ⟨hold, -, heq⟩ := addField_effect hok
      dsimp only
      rw [heq]
      exact ⟨hold, .ensureField ty hfind⟩
  | addMethod c spec =>
    cases h
    exact addMethod_effect hok
  | addVar m name ty =>
    cases h
    exact ⟨hok, .addVar m name ty⟩
  | newLabel m =>
    cases h
    exact ⟨hok, .newLabel m⟩
  | bind m l =>
    cases h
    exact ⟨hok, .bind m l⟩
  | setPos m pos =>
    cases h
    exact ⟨hok, .setPos m pos⟩
  | add m s =>
    cases h
    obtain ⟨hold, heq⟩ := add_effect hok
    rw [heq]
    exact ⟨hold, .add rfl⟩
  | addBranch m op x y target =>
    simp only [perform, Builder.addBranch] at h
    split at h
    · cases h
    · cases h
      obtain ⟨hold, heq⟩ := add_checked_effect hok
      rw [heq]
      exact ⟨hold, .add rfl⟩
  | addSwitch m v values targets default =>
    cases h
    obtain ⟨hold, heq⟩ := add_checked_effect hok
    rw [Builder.addSwitch, heq]
    exact ⟨hold, .add rfl⟩
  | setEntries ms =>
    cases h
    exact ⟨hok, .setEntries ms⟩

/-- What holds of the empty builder, and is kept by every call that fits and has no fault, holds of every
builder without fault. -/
theorem History.induction {P : List Operation → Builder → Prop} (hnil : P [] {})
    (hsnoc : ∀ ops o b b', o.Fits b → Effect b o b' → b'.errors = #[] → P ops b → P (ops ++ [o]) b')
    {ops : List Operation} (h : History ops b) (hok : b.errors = #[]) : P ops b := by
  induction h with
  | nil => exact hnil
  | snoc _ hfits hperform ih =>
    obtain ⟨hold, heffect⟩ := Operation.perform_effect hperform hok
    exact hsnoc _ _ _ _ hfits heffect hok (ih hold)

/-! ## What a sequence says about bodies -/

/-- The statements that the calls add to a method, in order. -/
def statements (ops : List Operation) (m : MethodId) : List (Stmt Label) :=
  ops.filterMap fun o => o.statement?.bind fun s => if s.1 = m then some s.2 else none

/-- `t` statements stood in the body when the label was bound for the last time, so that it is bound to
the statement that comes next. -/
def LastBound (ops : List Operation) (m : MethodId) (l : Label) (t : Nat) : Prop :=
  ∃ before after, ops = before ++ .bind m l :: after ∧ Operation.bind m l ∉ after ∧
    (statements before m).length = t

variable {ops : List Operation} {o : Operation} {m : MethodId} {l : Label} {t : Nat}

theorem statements_concat (ops : List Operation) (o : Operation) (m : MethodId) :
    statements (ops ++ [o]) m = statements ops m ++
      (o.statement?.bind fun s => if s.1 = m then some s.2 else none).toList := by
  rw [statements, List.filterMap_append]
  cases h : o.statement?.bind fun s => if s.1 = m then some s.2 else none <;>
    simp [statements, h]

theorem lastBound_concat_bind :
    LastBound (ops ++ [.bind m l]) m l t ↔ (statements ops m).length = t := by
  constructor
  · rintro ⟨before, after, heq, hlast, rfl⟩
    rcases List.eq_nil_or_concat' after with rfl | ⟨after, o, rfl⟩
    · rw [(List.append_inj' heq rfl).1]
    · rw [← List.cons_append, ← List.append_assoc] at heq
      obtain rfl := List.head_eq_of_cons_eq (List.append_inj' heq rfl).2
      exact absurd (List.mem_concat_self ..) hlast
  · rintro rfl
    exact ⟨ops, [], rfl, List.not_mem_nil, rfl⟩

/-- Other calls bind the label no more. -/
theorem lastBound_concat (ho : o ≠ .bind m l) :
    LastBound (ops ++ [o]) m l t ↔ LastBound ops m l t := by
  constructor
  · rintro ⟨before, after, heq, hlast, rfl⟩
    rcases List.eq_nil_or_concat' after with rfl | ⟨after, o', rfl⟩
    · exact absurd (List.head_eq_of_cons_eq (List.append_inj' heq rfl).2) ho
    · rw [← List.cons_append, ← List.append_assoc] at heq
      exact ⟨before, after, (List.append_inj' heq rfl).1,
        fun hmem => hlast (List.mem_append_left _ hmem), rfl⟩
  · rintro ⟨before, after, rfl, hlast, rfl⟩
    refine ⟨before, after ++ [o], by simp, fun hmem => ?_, rfl⟩
    rcases List.mem_append.mp hmem with hmem | hmem
    · exact hlast hmem
    · exact ho (List.mem_singleton.mp hmem).symm

end Builder

end WholeProgram
