import WholeProgram.Proofs.Program.Execution
import WholeProgram.Proofs.Program.WellFormed

/-!
# Runs that move values

A semantics of method bodies that follows values from variable to variable. Values are of any kind; a
literal has its value, a copy and an access to a static field move one, and all other statements may define
any value. Branches go either way.

* `Effect` — what a statement does to the variables and the static fields;
* `Step` — one step; `First` and `Crosses` — the run up to a place, `Crosses` with at least one step;
* `first_straight`, `crosses_straight` — a run goes through code without jumps; `exists_effects` — it always
  can;
* `crosses_jump`, `crosses_branch`, `not_crosses_ret` — the statements that jump.
-/

namespace WholeProgram

namespace Stmt

variable {τ υ : Type}

/-- Control goes on to the next statement. -/
def Straight : Stmt τ → Prop
  | branch _ _ _ _ | jump _ | switch _ _ _ | ret _ => False
  | _ => True

/-- The static field that the statement stores to, and the variable that it stores. -/
def stores? : Stmt τ → Option (FieldId × VarId)
  | storeField none f y => some (f, y)
  | _ => none

theorem defined?_mapTargets (f : τ → υ) (s : Stmt τ) : (s.mapTargets f).defined? = s.defined? := by
  cases s <;> rfl

theorem stores?_mapTargets (f : τ → υ) (s : Stmt τ) : (s.mapTargets f).stores? = s.stores? := by
  cases s with
  | storeField b => cases b <;> rfl
  | _ => rfl

theorem straight_mapTargets {f : τ → υ} {s : Stmt τ} (h : s.Straight) : (s.mapTargets f).Straight := by
  cases s <;> exact h

end Stmt

namespace Moves

/-- The values of variables and static fields. -/
structure Store (α : Type) where
  locals : VarId → α
  statics : FieldId → α

/-- A place in a run of a method. -/
structure Config (α : Type) where
  pc : Nat
  store : Store α

variable {α τ : Type} {lit : Int64 → α}

/-- The value that a statement defines, if it does not depend on more than variables and static fields. -/
def value? (lit : Int64 → α) (m : Store α) : Stmt τ → Option α
  | .literal _ n => some (lit n)
  | .copy _ y => some (m.locals y)
  | .loadField _ none f => some (m.statics f)
  | _ => none

/-- What a statement does: the variable that it defines gets its value, if that is known, and others keep
theirs. Calls may change any static field. -/
structure Effect (lit : Int64 → α) (s : Stmt τ) (m m' : Store α) : Prop where
  defined : ∀ x a, s.defined? = some x → value? lit m s = some a → m'.locals x = a
  others : ∀ x, s.defined? ≠ some x → m'.locals x = m.locals x
  stored : ∀ f y, s.stores? = some (f, y) → m'.statics f = m.locals y
  statics : s.call? = none → ∀ f, (∀ y, s.stores? ≠ some (f, y)) → m'.statics f = m.statics f

/-- Effects depend on nothing else. -/
theorem Effect.congr {υ : Type} {s : Stmt τ} {t : Stmt υ} {m m' : Store α} (h : Effect lit s m m')
    (hdefined : t.defined? = s.defined?) (hvalue : value? lit m t = value? lit m s) (hstores : t.stores? = s.stores?)
    (hcall : t.call? = s.call?) : Effect lit t m m' where
  defined := by
    rw [hdefined, hvalue]
    exact h.defined
  others := by
    rw [hdefined]
    exact h.others
  stored := by
    rw [hstores]
    exact h.stored
  statics := by
    rw [hcall, hstores]
    exact h.statics

/-- Where a statement jumps to does not matter. -/
theorem effect_mapTargets {υ : Type} {f : τ → υ} {s : Stmt τ} {m m' : Store α} :
    Effect lit (s.mapTargets f) m m' ↔ Effect lit s m m' := by
  have hvalue : value? lit m (s.mapTargets f) = value? lit m s := by
    cases s with
    | loadField x b => cases b <;> rfl
    | _ => rfl
  have hdefined := s.defined?_mapTargets f
  have hstores := s.stores?_mapTargets f
  have hcall := s.call?_mapTargets f
  exact ⟨fun h => h.congr hdefined.symm hvalue.symm hstores.symm hcall.symm,
    fun h => h.congr hdefined hvalue hstores hcall⟩

/-- One variable can get a value, and the others keep theirs. -/
theorem exists_set {κ : Type} [DecidableEq κ] (g : κ → α) (x : Option κ) (a : Option α) :
    ∃ g' : κ → α, (∀ y b, x = some y → a = some b → g' y = b) ∧ ∀ y, x ≠ some y → g' y = g y := by
  cases x with
  | none => exact ⟨g, nofun, fun _ _ => rfl⟩
  | some y =>
    cases a with
    | none => exact ⟨g, nofun, fun _ _ => rfl⟩
    | some a =>
      refine ⟨Function.update g y a, ?_, fun z hz => Function.update_of_ne (fun heq => hz (congrArg some heq.symm)) _ _⟩
      rintro _ _ ⟨⟩ ⟨⟩
      exact Function.update_self y a g

/-- Every statement can be executed. -/
theorem exists_effect (lit : Int64 → α) (s : Stmt τ) (m : Store α) : ∃ m', Effect lit s m m' := by
  obtain ⟨locals, hset, hkeep⟩ := exists_set m.locals s.defined? (value? lit m s)
  obtain ⟨statics, hset', hkeep'⟩ := exists_set m.statics (s.stores?.map (·.1)) (s.stores?.map fun t => m.locals t.2)
  refine ⟨⟨locals, statics⟩, ⟨hset, hkeep, fun f y hf => ?_, fun _ f hf => hkeep' f fun heq => ?_⟩⟩
  · exact hset' f _ (by rw [hf]; rfl) (by rw [hf]; rfl)
  · obtain ⟨⟨g, y⟩, hg, rfl⟩ := Option.map_eq_some_iff.mp heq
    exact hf y hg

/-- Statements that only jump do nothing else. -/
theorem effect_iff_eq {s : Stmt τ} {m m' : Store α} (hdefined : s.defined? = none) (hcall : s.call? = none)
    (hstores : s.stores? = none) : Effect lit s m m' ↔ m' = m := by
  constructor
  · intro h
    have hlocals : m'.locals = m.locals := funext fun x => h.others x (by simp [hdefined])
    have hstatics : m'.statics = m.statics := funext fun f => h.statics hcall f (by simp [hstores])
    cases m
    cases m'
    congr
  · rintro rfl
    exact ⟨by simp [hdefined], fun _ _ => rfl, by simp [hstores], fun _ _ _ => rfl⟩

/-- One step: a statement, and control goes on. -/
structure Step (lit : Int64 → α) (M : Method) (c c' : Config α) : Prop where
  stmt : ∃ s, M.stmt? c.pc = some s ∧ Effect lit s c.store c'.store
  next : c'.pc ∈ Execution.next M c.pc

/-- The run from one place to the first of the given ones. -/
inductive First (lit : Int64 → α) (M : Method) (P : Nat → Prop) : Config α → Config α → Prop
  | here {c : Config α} : P c.pc → First lit M P c c
  | step {c c' c'' : Config α} : ¬ P c.pc → Step lit M c c' → First lit M P c' c'' → First lit M P c c''

/-- The run from one place to the next of the given ones. -/
def Crosses (lit : Int64 → α) (M : Method) (P : Nat → Prop) (c c' : Config α) : Prop :=
  ∃ c₁, Step lit M c c₁ ∧ First lit M P c₁ c'

theorem crosses_iff_first {M : Method} {P : Nat → Prop} {c c' : Config α} (hc : ¬ P c.pc) :
    Crosses lit M P c c' ↔ First lit M P c c' := by
  constructor
  · rintro ⟨c₁, hstep, h⟩
    exact .step hc hstep h
  · intro h
    cases h with
    | here hP => exact absurd hP hc
    | step _ hstep h => exact ⟨_, hstep, h⟩

theorem First.arrives {M : Method} {P : Nat → Prop} {c c' : Config α} (h : First lit M P c c') : P c'.pc := by
  induction h with
  | here hP => exact hP
  | step _ _ _ ih => exact ih

theorem first_iff_eq {M : Method} {P : Nat → Prop} {c c' : Config α} (hc : P c.pc) : First lit M P c c' ↔ c' = c := by
  constructor
  · intro h
    cases h with
    | here => rfl
    | step hP => exact absurd hc hP
  · rintro rfl
    exact .here hc

/-- What steps keep, runs keep. -/
theorem First.invariant {M : Method} {P : Nat → Prop} {I : Config α → Prop} {c c' : Config α}
    (hstep : ∀ c c', I c → Step lit M c c' → I c') (h : First lit M P c c') (hc : I c) : I c' := by
  induction h with
  | here => exact hc
  | step _ hs _ ih => exact ih (hstep _ _ hc hs)

theorem Crosses.invariant {M : Method} {P : Nat → Prop} {I : Config α → Prop} {c c' : Config α}
    (hstep : ∀ c c', I c → Step lit M c c' → I c') (h : Crosses lit M P c c') (hc : I c) : I c' := by
  obtain ⟨c₁, hs, hfirst⟩ := h
  exact hfirst.invariant hstep (hstep c c₁ hc hs)

/-! ## Code without jumps -/

/-- The code stands at this position of the method, its jumps going where `f` says. -/
def At (M : Method) (f : τ → Nat) (k : Nat) (code : List (Stmt τ)) : Prop :=
  ∀ j s, code[j]? = some s → M.stmt? (k + j) = some (s.mapTargets f)

/-- What some statements do, one after the other. -/
inductive Effects (lit : Int64 → α) : List (Stmt τ) → Store α → Store α → Prop
  | nil {m : Store α} : Effects lit [] m m
  | cons {s : Stmt τ} {code : List (Stmt τ)} {m m₁ m' : Store α} : Effect lit s m m₁ → Effects lit code m₁ m' →
      Effects lit (s :: code) m m'

section

variable {M : Method} {f : τ → Nat} {P : Nat → Prop} {k : Nat} {s : Stmt τ} {code code' : List (Stmt τ)}
  {m m' m₁ : Store α} {c' : Config α}

theorem At.head (h : At M f k (s :: code)) : M.stmt? k = some (s.mapTargets f) := h 0 s rfl

theorem At.tail (h : At M f k (s :: code)) : At M f (k + 1) code := fun j t ht => by
  rw [Nat.add_assoc, Nat.add_comm 1]
  exact h (j + 1) t ht

theorem At.right (h : At M f k (code ++ code')) : At M f (k + code.length) code' := fun j t ht => by
  rw [Nat.add_assoc]
  refine h (code.length + j) t ?_
  rwa [List.getElem?_append_right (Nat.le_add_right _ _), Nat.add_sub_cancel_left]

theorem exists_effects (lit : Int64 → α) (code : List (Stmt τ)) (m : Store α) : ∃ m', Effects lit code m m' := by
  induction code generalizing m with
  | nil => exact ⟨m, .nil⟩
  | cons s code ih =>
    obtain ⟨m₁, h₁⟩ := exists_effect lit s m
    obtain ⟨m', h⟩ := ih m₁
    exact ⟨m', .cons h₁ h⟩

theorem Effects.append (h : Effects lit code m m₁) (h' : Effects lit code' m₁ m') :
    Effects lit (code ++ code') m m' := by
  induction h with
  | nil => exact h'
  | cons hs _ ih => exact .cons hs (ih h')

theorem Effects.split (h : Effects lit (code ++ code') m m') :
    ∃ m₁, Effects lit code m m₁ ∧ Effects lit code' m₁ m' := by
  induction code generalizing m with
  | nil => exact ⟨m, .nil, h⟩
  | cons s code ih =>
    cases h with
    | cons hs h =>
      obtain ⟨m₁, h₁, h₂⟩ := ih h
      exact ⟨m₁, .cons hs h₁, h₂⟩

/-- Variables that the statements do not write keep their values. -/
theorem Effects.locals (h : Effects lit code m m') {x : VarId} (hx : ∀ s ∈ code, s.defined? ≠ some x) :
    m'.locals x = m.locals x := by
  induction h with
  | nil => rfl
  | cons hs _ ih =>
    rw [ih fun t ht => hx t (List.mem_cons_of_mem _ ht)]
    exact hs.others x (hx _ List.mem_cons_self)

/-- So do static fields. -/
theorem Effects.statics (h : Effects lit code m m') (hcode : ∀ s ∈ code, s.call? = none ∧ s.stores? = none) :
    m'.statics = m.statics := by
  induction h with
  | nil => rfl
  | cons hs _ ih =>
    obtain ⟨hcall, hstores⟩ := hcode _ List.mem_cons_self
    rw [ih fun t ht => hcode t (List.mem_cons_of_mem _ ht)]
    exact funext fun f => hs.statics hcall f (by simp [hstores])

/-- A statement without jumps is followed by the next one. -/
theorem next_straight {s : Stmt Nat} (hs : M.stmt? k = some s) (h : s.Straight) : Execution.next M k = [k + 1] := by
  simp only [Execution.next, Method.outEdges, hs]
  cases s with
  | branch | jump | switch | ret => exact h.elim
  | _ => rfl

/-- A run goes through a statement without jumps, whatever it comes to next. -/
theorem crosses_cons (lit : Int64 → α) (hAt : At M f k (s :: code)) (h : s.Straight) :
    Crosses lit M P ⟨k, m⟩ c' ↔ ∃ m₁, Effect lit s m m₁ ∧ First lit M P ⟨k + 1, m₁⟩ c' := by
  have hnext := next_straight hAt.head (Stmt.straight_mapTargets h)
  constructor
  · rintro ⟨⟨pc, m₁⟩, ⟨⟨t, ht, heffect⟩, hpc⟩, hfirst⟩
    obtain rfl := Option.some.inj (hAt.head.symm.trans ht)
    obtain rfl : pc = k + 1 := List.mem_singleton.mp (hnext ▸ hpc)
    exact ⟨m₁, effect_mapTargets.mp heffect, hfirst⟩
  · rintro ⟨m₁, heffect, hfirst⟩
    exact ⟨⟨k + 1, m₁⟩,
      ⟨⟨_, hAt.head, effect_mapTargets.mpr heffect⟩, hnext ▸ List.mem_singleton_self _⟩, hfirst⟩

theorem effects_nil_iff : Effects lit ([] : List (Stmt τ)) m m' ↔ m' = m :=
  ⟨fun h => by cases h; rfl, fun h => h ▸ .nil⟩

theorem effects_cons_iff :
    Effects lit (s :: code) m m' ↔ ∃ m₁, Effect lit s m m₁ ∧ Effects lit code m₁ m' := by
  constructor
  · intro h
    cases h with
    | cons hs h => exact ⟨_, hs, h⟩
  · rintro ⟨m₁, hs, h⟩
    exact .cons hs h

/-- A run goes through code without jumps. -/
theorem first_straight (lit : Int64 → α) (hAt : At M f k code) (hstraight : ∀ s ∈ code, s.Straight)
    (hP : ∀ j < code.length, ¬ P (k + j)) :
    First lit M P ⟨k, m⟩ c' ↔ ∃ m₁, Effects lit code m m₁ ∧ First lit M P ⟨k + code.length, m₁⟩ c' := by
  induction code generalizing k m with
  | nil => simp only [effects_nil_iff, exists_eq_left, List.length_nil, Nat.add_zero]
  | cons s code ih =>
    have hk : ¬ P k := hP 0 (Nat.succ_pos _)
    have ih' {m : Store α} := ih (m := m) hAt.tail (fun t ht => hstraight t (List.mem_cons_of_mem s ht))
      fun j hj => by
        rw [Nat.add_assoc, Nat.add_comm 1]
        exact hP (j + 1) (Nat.succ_lt_succ hj)
    rw [Nat.add_assoc, Nat.add_comm 1] at ih'
    rw [← crosses_iff_first hk, crosses_cons lit hAt (hstraight s List.mem_cons_self)]
    simp only [ih', effects_cons_iff, List.length_cons]
    constructor
    · rintro ⟨m₁, heffect, m₂, heffects, h⟩
      exact ⟨m₂, ⟨m₁, heffect, heffects⟩, h⟩
    · rintro ⟨m₂, ⟨m₁, heffect, heffects⟩, h⟩
      exact ⟨m₁, heffect, m₂, heffects, h⟩

/-- Code without jumps can be run to its end. -/
theorem exists_first (lit : Int64 → α) (hAt : At M f k code) (hstraight : ∀ s ∈ code, s.Straight) (m : Store α) :
    ∃ c', First lit M (· = k + code.length) ⟨k, m⟩ c' := by
  obtain ⟨m', heffects⟩ := exists_effects lit code m
  refine ⟨⟨k + code.length, m'⟩, (first_straight lit hAt hstraight fun j hj => ?_).mpr ⟨m', heffects, .here rfl⟩⟩
  omega

/-- A run that starts at one of the places goes through code, too. -/
theorem crosses_straight (lit : Int64 → α) (hAt : At M f k code) (hstraight : ∀ s ∈ code, s.Straight)
    (hP : ∀ j < code.length, ¬ P (k + (j + 1))) :
    Crosses lit M P ⟨k, m⟩ c' ↔ ∃ m₁, Effects lit code m m₁ ∧ Crosses lit M P ⟨k + code.length, m₁⟩ c' := by
  cases code with
  | nil => simp only [effects_nil_iff, exists_eq_left, List.length_nil, Nat.add_zero]
  | cons s code =>
    have hlast {m : Store α} : Crosses lit M P ⟨k + (code.length + 1), m⟩ c' ↔
        First lit M P ⟨k + (code.length + 1), m⟩ c' :=
      crosses_iff_first (hP code.length (Nat.lt_succ_self _))
    have hrest {m : Store α} : First lit M P ⟨k + 1, m⟩ c' ↔
        ∃ m₁, Effects lit code m m₁ ∧ First lit M P ⟨k + 1 + code.length, m₁⟩ c' := by
      refine first_straight lit hAt.tail (fun t ht => hstraight t (List.mem_cons_of_mem s ht)) fun j hj => ?_
      rw [Nat.add_assoc, Nat.add_comm 1]
      exact hP j (Nat.lt_succ_of_lt hj)
    rw [Nat.add_assoc, Nat.add_comm 1] at hrest
    rw [crosses_cons lit hAt (hstraight s List.mem_cons_self)]
    simp only [hrest, effects_cons_iff, List.length_cons, hlast]
    constructor
    · rintro ⟨m₁, heffect, m₂, heffects, h⟩
      exact ⟨m₂, ⟨m₁, heffect, heffects⟩, h⟩
    · rintro ⟨m₂, ⟨m₁, heffect, heffects⟩, h⟩
      exact ⟨m₁, heffect, m₂, heffects, h⟩

/-! ## Jumps -/

/-- A run goes on where a statement that only jumps leads to. -/
theorem crosses_iff_next {s : Stmt Nat} (hs : M.stmt? k = some s) (hdefined : s.defined? = none)
    (hcall : s.call? = none) (hstores : s.stores? = none) :
    Crosses lit M P ⟨k, m⟩ c' ↔ ∃ t ∈ Execution.next M k, First lit M P ⟨t, m⟩ c' := by
  constructor
  · rintro ⟨⟨t, m₁⟩, ⟨⟨s', hs', heffect⟩, ht⟩, h⟩
    obtain rfl := Option.some.inj (hs.symm.trans hs')
    obtain rfl : m₁ = m := (effect_iff_eq hdefined hcall hstores).mp heffect
    exact ⟨t, ht, h⟩
  · rintro ⟨t, ht, h⟩
    exact ⟨⟨t, m⟩, ⟨⟨s, hs, (effect_iff_eq hdefined hcall hstores).mpr rfl⟩, ht⟩, h⟩

theorem crosses_jump {t : Nat} (hs : M.stmt? k = some (.jump t)) :
    Crosses lit M P ⟨k, m⟩ c' ↔ First lit M P ⟨t, m⟩ c' := by
  have hnext : Execution.next M k = [t] := by simp [Execution.next, Method.outEdges, hs]
  rw [crosses_iff_next hs rfl rfl rfl, hnext]
  simp

theorem crosses_branch {op : BinaryOp} {x y : VarId} {t : Nat} (hs : M.stmt? k = some (.branch op x y t)) :
    Crosses lit M P ⟨k, m⟩ c' ↔ First lit M P ⟨t, m⟩ c' ∨ First lit M P ⟨k + 1, m⟩ c' := by
  have hnext : Execution.next M k = [t, k + 1] := by simp [Execution.next, Method.outEdges, hs]
  rw [crosses_iff_next hs rfl rfl rfl, hnext]
  simp

/-- Nothing comes after the end of a method. -/
theorem not_crosses_ret {v : Option VarId} (hs : M.stmt? k = some (.ret v)) (hP : ¬ P M.body.size) :
    ¬ Crosses lit M P ⟨k, m⟩ c' := by
  have hnext : Execution.next M k = [M.body.size] := by simp [Execution.next, Method.outEdges, hs, Method.exit]
  rw [crosses_iff_next hs rfl rfl rfl, hnext]
  rintro ⟨pc, hpc, h⟩
  obtain rfl := List.mem_singleton.mp hpc
  obtain ⟨c₁, ⟨⟨s, hend, -⟩, -⟩, -⟩ := (crosses_iff_first hP).mpr h
  simp [Method.stmt?] at hend

end

end Moves

end WholeProgram
