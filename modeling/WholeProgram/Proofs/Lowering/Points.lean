import Std.Data.HashMap.Lemmas
import WholeProgram.Lowering.Body
import WholeProgram.Proofs.Lowering.Frames
import WholeProgram.Proofs.Program.Moves

/-!
# While a body is lowered

The lowering of a body is a sequence of actions. Each goes from one point of it to a later one.

* `Point` — a scope and a state; `Point.code` is the code of the method so far;
* `Ok` — what holds at every point: values, shadows and labels are told apart;
* `Later` — what a later point keeps: known variables, bound labels, the code so far, and variables that
  nothing writes;
* `Comes` — an action comes to a later point, and its result is as said; `Goes` if it besides leaves labels
  and shadows alone; `Goes.bind` composes actions;
* `goes_emit`, `goes_varOf`, `goes_temp`, `goes_lift` — the actions that others are made of.
-/

namespace WholeProgram

namespace Lowering

open Ssa (TypeId FuncId GlobalId ValueId BlockId Operand Instruction Block Func)

/-- A point of the lowering of a body. -/
structure Point where
  scope : Scope
  state : State

namespace Point

/-- The method under construction. -/
def draft? (p : Point) : Option Draft := p.state.builder.drafts[p.scope.method]?

/-- The statements of the method so far. -/
def code (p : Point) : List (Stmt Label) := (p.draft?.map fun d => d.code.toList.map (·.1)).getD []

/-- The statement that a label stands for. -/
def place? (p : Point) (l : Label) : Option Nat := p.draft?.bind (·.place? l)

/-- The number of variables that there are; the next one gets it. -/
def numVars (p : Point) : Nat := p.state.builder.vars.size

/-- The variable is there, and is that of no value and no shadow. -/
structure Temp (p : Point) (x : VarId) : Prop where
  lt : x < p.numVars
  vars : ∀ v : ValueId, p.scope.vars[v]? ≠ some x
  shadows : ∀ v : ValueId, p.scope.shadows[v]? ≠ some x

/-- Besides, no statement writes it. -/
structure Free (p : Point) (x : VarId) : Prop extends p.Temp x where
  code : ∀ s ∈ p.code, s.defined? ≠ some x

end Point

/-- What holds at every point. -/
structure Ok (p : Point) : Prop where
  draft : ∃ d, p.draft? = some d ∧ d.Waits ∧
    ∀ (b : BlockId) (l : Label), p.scope.labels[b]? = some l → l < d.labels.size
  code : ∀ s ∈ p.code, ∀ x, s.defined? = some x → x < p.numVars
  vars_lt : ∀ (v : ValueId) (x : VarId), p.scope.vars[v]? = some x → x < p.numVars
  shadows_lt : ∀ (v : ValueId) (x : VarId), p.scope.shadows[v]? = some x → x < p.numVars
  vars_inj : ∀ (v w : ValueId) (x : VarId), p.scope.vars[v]? = some x → p.scope.vars[w]? = some x → v = w
  shadows_inj : ∀ (v w : ValueId) (x : VarId), p.scope.shadows[v]? = some x → p.scope.shadows[w]? = some x → v = w
  apart : ∀ (v w : ValueId) (x : VarId), p.scope.vars[v]? = some x → p.scope.shadows[w]? ≠ some x
  labels_inj : ∀ (b c : BlockId) (l : Label), p.scope.labels[b]? = some l → p.scope.labels[c]? = some l → b = c

/-- Nothing was lowered yet. -/
structure Starts (p : Point) : Prop where
  draft : ∃ d, p.draft? = some d ∧ d.code = #[] ∧ d.pending = [] ∧ d.labels = #[]
  vars : p.scope.vars = ∅
  shadows : p.scope.shadows = ∅
  labels : p.scope.labels = ∅

theorem Starts.code_eq {p : Point} (h : Starts p) : p.code = [] := by
  obtain ⟨d, hd, hcode, -⟩ := h.draft
  simp [Point.code, hd, hcode]

theorem Starts.ok {p : Point} (h : Starts p) : Ok p where
  draft := by
    obtain ⟨d, hd, -, hpending, -⟩ := h.draft
    refine ⟨d, hd, fun l hl => ?_, fun b l hl => ?_⟩
    · rw [hpending] at hl
      cases hl
    · simp [h.labels] at hl
  code s hs := by
    rw [h.code_eq] at hs
    cases hs
  vars_lt v x hx := by simp [h.vars] at hx
  shadows_lt v x hx := by simp [h.shadows] at hx
  vars_inj v w x hx := by simp [h.vars] at hx
  shadows_inj v w x hx := by simp [h.shadows] at hx
  apart v w x hx := by simp [h.vars] at hx
  labels_inj b c l hl := by simp [h.labels] at hl

/-- A table of variables gets new variables only. -/
structure Grows (n : Nat) (m m' : Std.HashMap ValueId VarId) : Prop where
  old : ∀ (v : ValueId) (x : VarId), m[v]? = some x → m'[v]? = some x
  new : ∀ (v : ValueId) (x : VarId), m'[v]? = some x → m[v]? = some x ∨ n ≤ x

theorem Grows.refl (n : Nat) (m : Std.HashMap ValueId VarId) : Grows n m m := ⟨fun _ _ h => h, fun _ _ => Or.inl⟩

theorem Grows.trans {n n' : Nat} {m m' m'' : Std.HashMap ValueId VarId} (h : Grows n m m')
    (h' : Grows n' m' m'') (hn : n ≤ n') : Grows n m m'' where
  old v x hx := h'.old v x (h.old v x hx)
  new v x hx := by
    rcases h'.new v x hx with hx | hx
    · exact h.new v x hx
    · exact Or.inr (Nat.le_trans hn hx)

theorem Grows.insert {n : Nat} {m : Std.HashMap ValueId VarId} {v : ValueId} {x : VarId} (hv : m[v]? = none)
    (hx : n ≤ x) : Grows n m (m.insert v x) where
  old w y hy := getElem?_insert_of_some x hv hy
  new w y hy := by
    rw [Std.HashMap.getElem?_insert] at hy
    split at hy
    · obtain rfl := Option.some.inj hy
      exact Or.inr hx
    · exact Or.inl hy

theorem getElem?_insert_eq_some {m : Std.HashMap ValueId VarId} {v w : ValueId} {x y : VarId} :
    (m.insert v x)[w]? = some y ↔ (v = w ∧ x = y) ∨ (v ≠ w ∧ m[w]? = some y) := by
  rw [Std.HashMap.getElem?_insert]
  by_cases hvw : v = w <;> simp [hvw]

/-- A new variable is told apart from those that there are. -/
theorem insert_inj {n : Nat} {m : Std.HashMap ValueId VarId} (v : ValueId)
    (hlt : ∀ (w : ValueId) (x : VarId), m[w]? = some x → x < n)
    (hinj : ∀ (w u : ValueId) (x : VarId), m[w]? = some x → m[u]? = some x → w = u) (w u : ValueId) (x : VarId)
    (hw : (m.insert v n)[w]? = some x) (hu : (m.insert v n)[u]? = some x) : w = u := by
  rcases getElem?_insert_eq_some.mp hw with ⟨rfl, rfl⟩ | ⟨-, hw⟩ <;>
    rcases getElem?_insert_eq_some.mp hu with ⟨rfl, heq⟩ | ⟨-, hu⟩
  · rfl
  · exact absurd (hlt u _ hu) (Nat.lt_irrefl _)
  · exact absurd (heq ▸ hlt w _ hw) (Nat.lt_irrefl _)
  · exact hinj w u x hw hu

/-- What a later point keeps. The statements in between are of class `A`, and write none of the free
variables below `n`. -/
structure Later (A : Stmt Label → Prop) (n : Nat) (p q : Point) : Prop where
  func : q.scope.func = p.scope.func
  method : q.scope.method = p.scope.method
  numVars : p.numVars ≤ q.numVars
  vars : Grows p.numVars p.scope.vars q.scope.vars
  shadows : Grows p.numVars p.scope.shadows q.scope.shadows
  labels : ∀ (b : BlockId) (l : Label), p.scope.labels[b]? = some l → q.scope.labels[b]? = some l
  globals : ∀ (g : GlobalId) (f : FieldId), p.state.globals[g]? = some f → q.state.globals[g]? = some f
  places : ∀ l t, p.place? l = some t → q.place? l = some t
  header : (q.draft?.map fun d => (d.header.receiver, d.header.params)) =
    p.draft?.map fun d => (d.header.receiver, d.header.params)
  code : ∃ new, q.code = p.code ++ new ∧ ∀ s ∈ new, A s
  free : ∀ x < n, p.Free x → q.Free x

variable {A B : Stmt Label → Prop} {n n' : Nat} {p q r : Point}

theorem Later.refl (A : Stmt Label → Prop) (n : Nat) (p : Point) : Later A n p p :=
  ⟨rfl, rfl, Nat.le_refl _, .refl _ _, .refl _ _, fun _ _ h => h, fun _ _ h => h, fun _ _ h => h, rfl,
    ⟨[], (List.append_nil _).symm, nofun⟩, fun _ _ h => h⟩

theorem Later.trans (h : Later A n p q) (h' : Later A n' q r) (hn : n ≤ n') : Later A n p r where
  func := h'.func.trans h.func
  method := h'.method.trans h.method
  numVars := Nat.le_trans h.numVars h'.numVars
  vars := h.vars.trans h'.vars h.numVars
  shadows := h.shadows.trans h'.shadows h.numVars
  labels b l hl := h'.labels b l (h.labels b l hl)
  globals g f hf := h'.globals g f (h.globals g f hf)
  places l t ht := h'.places l t (h.places l t ht)
  header := h'.header.trans h.header
  code := by
    obtain ⟨new, hnew, hA⟩ := h.code
    obtain ⟨new', hnew', hA'⟩ := h'.code
    refine ⟨new ++ new', by rw [hnew', hnew, List.append_assoc], fun s hs => ?_⟩
    rcases List.mem_append.mp hs with hs | hs
    · exact hA s hs
    · exact hA' s hs
  free x hx hfree := h'.free x (Nat.lt_of_lt_of_le hx hn) (h.free x hx hfree)

theorem Later.weaken (h : Later A n p q) (hn : n' ≤ n) (hA : ∀ s, A s → B s) : Later B n' p q :=
  { h with
    code := by
      obtain ⟨new, hnew, hmem⟩ := h.code
      exact ⟨new, hnew, fun s hs => hA s (hmem s hs)⟩
    free := fun x hx => h.free x (Nat.lt_of_lt_of_le hx hn) }

/-- Variables that are of no value and no shadow stay so. -/
theorem Later.temp (h : Later A n p q) {x : VarId} (hx : p.Temp x) : q.Temp x where
  lt := Nat.lt_of_lt_of_le hx.lt h.numVars
  vars v hv := by
    rcases h.vars.new v x hv with hv | hle
    · exact hx.vars v hv
    · exact Nat.not_lt.mpr hle hx.lt
  shadows v hv := by
    rcases h.shadows.new v x hv with hv | hle
    · exact hx.shadows v hv
    · exact Nat.not_lt.mpr hle hx.lt

/-! ## Actions -/

section

variable {α β : Type} {S : Setting}

/-- The point after an action. -/
def Point.after (p : Point) (S : Setting) (x : LowerBody α) : Point :=
  { scope := (x p.scope S p.state).1.2, state := (x p.scope S p.state).2 }

/-- The result of an action. -/
def Point.result (p : Point) (S : Setting) (x : LowerBody α) : α := (x p.scope S p.state).1.1

theorem Point.after_bind (p : Point) (S : Setting) (x : LowerBody α) (f : α → LowerBody β) :
    p.after S (x >>= f) = (p.after S x).after S (f (p.result S x)) := rfl

theorem Point.after_get (p : Point) (S : Setting) (f : Scope → LowerBody β) :
    p.after S (get >>= f) = p.after S (f p.scope) := rfl

/-- The labels, the statements that they stand for, and the shadows are the same. -/
structure Kept (p q : Point) : Prop where
  places : ∀ l, q.place? l = p.place? l
  shadows : q.scope.shadows = p.scope.shadows
  labels : q.scope.labels = p.scope.labels

theorem Kept.refl (p : Point) : Kept p p := ⟨fun _ => rfl, rfl, rfl⟩

theorem Kept.trans (h : Kept p q) (h' : Kept q r) : Kept p r :=
  ⟨fun l => (h'.places l).trans (h.places l), h'.shadows.trans h.shadows, h'.labels.trans h.labels⟩

/-- The action comes to a point that is later and in order, and what it returns is as said. -/
structure Comes (S : Setting) (A : Stmt Label → Prop) (n : Nat) (p : Point) (x : LowerBody α)
    (Q : α → Point → Prop) : Prop where
  ok : Ok (p.after S x)
  later : Later A n p (p.after S x)
  post : Q (p.result S x) (p.after S x)

/-- Besides, the action binds no labels and makes no shadows. -/
structure Goes (S : Setting) (A : Stmt Label → Prop) (n : Nat) (p : Point) (x : LowerBody α)
    (Q : α → Point → Prop) : Prop where
  ok : Ok (p.after S x)
  later : Later A n p (p.after S x)
  kept : Kept p (p.after S x)
  post : Q (p.result S x) (p.after S x)

variable {x : LowerBody α} {f : α → LowerBody β} {Q Q' : α → Point → Prop} {R : β → Point → Prop}

theorem Goes.comes (h : Goes S A n p x Q) : Comes S A n p x fun a q => Q a q ∧ Kept p q :=
  ⟨h.ok, h.later, h.post, h.kept⟩

theorem comes_pure {a : α} (hp : Ok p) (h : Q a p) : Comes S A n p (pure a) Q := ⟨hp, .refl A n p, h⟩

theorem Comes.bind (hx : Comes S A n p x Q)
    (hf : ∀ a q, Ok q → Later A n p q → Q a q → Comes S A n q (f a) R) : Comes S A n p (x >>= f) R := by
  have h := hf _ _ hx.ok hx.later hx.post
  exact ⟨h.ok, hx.later.trans h.later (Nat.le_refl n), h.post⟩

theorem Comes.weaken (h : Comes S A n p x Q) (hn : n' ≤ n) (hA : ∀ s, A s → B s) : Comes S B n' p x Q :=
  ⟨h.ok, h.later.weaken hn hA, h.post⟩

/-- The action keeps all free variables that there are. -/
theorem Comes.bind' (hx : Comes S A p.numVars p x Q)
    (hf : ∀ a q, Ok q → Later A p.numVars p q → Q a q → Comes S A q.numVars q (f a) R) :
    Comes S A p.numVars p (x >>= f) R :=
  hx.bind fun a q hq hpq ha => (hf a q hq hpq ha).weaken hpq.numVars fun _ hs => hs

theorem Comes.mono (h : Comes S A n p x Q) (hQ : ∀ a q, Ok q → Later A n p q → Q a q → Q' a q) :
    Comes S A n p x Q' :=
  ⟨h.ok, h.later, hQ _ _ h.ok h.later h.post⟩

theorem comes_get {f : Scope → LowerBody β} (h : Comes S A n p (f p.scope) R) : Comes S A n p (get >>= f) R :=
  ⟨h.ok, h.later, h.post⟩

theorem goes_pure {a : α} (hp : Ok p) (h : Q a p) : Goes S A n p (pure a) Q := ⟨hp, .refl A n p, .refl p, h⟩

theorem Goes.bind (hx : Goes S A n p x Q)
    (hf : ∀ a q, Ok q → Later A n p q → Q a q → Goes S A n q (f a) R) : Goes S A n p (x >>= f) R := by
  have h := hf _ _ hx.ok hx.later hx.post
  exact ⟨h.ok, hx.later.trans h.later (Nat.le_refl n), hx.kept.trans h.kept, h.post⟩

theorem Goes.weaken (h : Goes S A n p x Q) (hn : n' ≤ n) (hA : ∀ s, A s → B s) : Goes S B n' p x Q :=
  ⟨h.ok, h.later.weaken hn hA, h.kept, h.post⟩

/-- The action keeps all free variables that there are. -/
theorem Goes.bind' (hx : Goes S A p.numVars p x Q)
    (hf : ∀ a q, Ok q → Later A p.numVars p q → Q a q → Goes S A q.numVars q (f a) R) :
    Goes S A p.numVars p (x >>= f) R :=
  hx.bind fun a q hq hpq ha => (hf a q hq hpq ha).weaken hpq.numVars fun _ hs => hs

theorem Goes.mono (h : Goes S A n p x Q) (hQ : ∀ a q, Ok q → Later A n p q → Q a q → Q' a q) :
    Goes S A n p x Q' :=
  ⟨h.ok, h.later, h.kept, hQ _ _ h.ok h.later h.post⟩

theorem goes_get {f : Scope → LowerBody β} (h : Goes S A n p (f p.scope) R) : Goes S A n p (get >>= f) R :=
  ⟨h.ok, h.later, h.kept, h.post⟩

theorem goes_read {f : Setting → LowerBody β} (h : Goes S A n p (f S) R) : Goes S A n p (read >>= f) R :=
  ⟨h.ok, h.later, h.kept, h.post⟩

theorem goes_types {f : Ssa.Types → LowerBody β} (h : Goes S A n p (f S.types) R) :
    Goes S A n p (liftM types >>= f) R := ⟨h.ok, h.later, h.kept, h.post⟩

/-! ### What declares -/

/-- The body of the method is the same; it may have more variables. -/
def SameDraft (p q : Point) : Prop :=
  (q.draft?.map fun d => (d.code, d.labels, d.pending, d.header.receiver, d.header.params)) =
    p.draft?.map fun d => (d.code, d.labels, d.pending, d.header.receiver, d.header.params)

theorem SameDraft.exists_draft (h : SameDraft p q) {d : Draft} (hd : p.draft? = some d) :
    ∃ d', q.draft? = some d' ∧ d'.code = d.code ∧ d'.labels = d.labels ∧ d'.pending = d.pending ∧
      d'.header.receiver = d.header.receiver ∧ d'.header.params = d.header.params := by
  rw [SameDraft, hd] at h
  obtain ⟨d', hd', heq⟩ := Option.map_eq_some_iff.mp h
  simp only [Prod.mk.injEq] at heq
  exact ⟨d', hd', heq⟩

theorem SameDraft.code (h : SameDraft p q) : q.code = p.code := by
  have := congrArg (fun o => (o.map fun d => d.1.toList.map (·.1)).getD []) h
  simpa [Point.code, Option.map_map, Function.comp_def] using this

theorem SameDraft.place? (h : SameDraft p q) (l : Label) : q.place? l = p.place? l := by
  unfold Point.place? Draft.place?
  have := congrArg (fun o => o.bind fun d => if l ∈ d.2.2.1 then some d.1.size else (d.2.1[l]?).join) h
  simpa [Option.bind_map, Function.comp_def] using this

theorem SameDraft.header (h : SameDraft p q) : (q.draft?.map fun d => (d.header.receiver, d.header.params)) =
    p.draft?.map fun d => (d.header.receiver, d.header.params) := by
  have := congrArg (Option.map fun d => (d.2.2.2.1, d.2.2.2.2)) h
  simpa [Option.map_map, Function.comp_def] using this

/-- A point with the same body is later when its tables have grown. -/
theorem SameDraft.later (h : SameDraft p q) (hfunc : q.scope.func = p.scope.func)
    (hmethod : q.scope.method = p.scope.method) (hnum : p.numVars ≤ q.numVars)
    (hvars : Grows p.numVars p.scope.vars q.scope.vars) (hshadows : Grows p.numVars p.scope.shadows q.scope.shadows)
    (hlabels : q.scope.labels = p.scope.labels)
    (hglobals : ∀ (g : GlobalId) (f : FieldId), p.state.globals[g]? = some f → q.state.globals[g]? = some f) :
    Later A n p q := by
  have hlater : Later A 0 p q :=
    { func := hfunc, method := hmethod, numVars := hnum, vars := hvars, shadows := hshadows, globals := hglobals
      labels := fun b l hl => by rwa [hlabels]
      places := fun l t ht => by rwa [h.place?]
      header := h.header
      code := ⟨[], by rw [h.code, List.append_nil], nofun⟩
      free := nofun }
  exact { hlater with free := fun x _ hx => ⟨hlater.temp hx.toTemp, h.code ▸ hx.code⟩ }

/-- Two scopes know the same; they may count their temporary variables differently. -/
structure SameScope (c c' : Scope) : Prop where
  func : c'.func = c.func
  method : c'.method = c.method
  vars : c'.vars = c.vars
  shadows : c'.shadows = c.shadows
  labels : c'.labels = c.labels

theorem SameScope.refl (c : Scope) : SameScope c c := ⟨rfl, rfl, rfl, rfl, rfl⟩

/-- The body is where it was, and so is what is known of it. -/
structure SameBody (p q : Point) : Prop where
  scope : SameScope p.scope q.scope
  draft : SameDraft p q

theorem SameBody.code (h : SameBody p q) : q.code = p.code := h.draft.code

/-- A point with the same body and more declarations. -/
theorem SameBody.later (h : SameBody p q) (hnum : p.numVars ≤ q.numVars)
    (hglobals : ∀ (g : GlobalId) (f : FieldId), p.state.globals[g]? = some f → q.state.globals[g]? = some f) :
    Later A n p q :=
  h.draft.later h.scope.func h.scope.method hnum (h.scope.vars ▸ .refl _ _) (h.scope.shadows ▸ .refl _ _)
    h.scope.labels hglobals

theorem SameBody.ok (h : SameBody p q) (hnum : p.numVars ≤ q.numVars) (hp : Ok p) : Ok q where
  draft := by
    obtain ⟨d, hd, hwaits, hlabels⟩ := hp.draft
    obtain ⟨d', hd', -, hl, hpending, -⟩ := h.draft.exists_draft hd
    refine ⟨d', hd', fun l hmem => ?_, fun b l hb => ?_⟩
    · rw [hl]
      exact hwaits l (hpending ▸ hmem)
    · rw [hl]
      exact hlabels b l (h.scope.labels ▸ hb)
  code s hs x hx := Nat.lt_of_lt_of_le (hp.code s (h.code ▸ hs) x hx) hnum
  vars_lt v x hx := Nat.lt_of_lt_of_le (hp.vars_lt v x (h.scope.vars ▸ hx)) hnum
  shadows_lt v x hx := Nat.lt_of_lt_of_le (hp.shadows_lt v x (h.scope.shadows ▸ hx)) hnum
  vars_inj := h.scope.vars ▸ hp.vars_inj
  shadows_inj := h.scope.shadows ▸ hp.shadows_inj
  apart := by
    rw [h.scope.vars, h.scope.shadows]
    exact hp.apart
  labels_inj := h.scope.labels ▸ hp.labels_inj

/-- A variable that is new is that of no value and no shadow, and nothing writes it. -/
theorem Ok.free_of_le (hp : Ok p) (hq : SameBody p q) {x : VarId} (hx : p.numVars ≤ x) (hlt : x < q.numVars) :
    q.Free x := by
  refine ⟨⟨hlt, fun v hv => ?_, fun v hv => ?_⟩, fun s hs heq => ?_⟩
  · exact Nat.not_lt.mpr hx (hp.vars_lt v x (hq.scope.vars ▸ hv))
  · exact Nat.not_lt.mpr hx (hp.shadows_lt v x (hq.scope.shadows ▸ hv))
  · exact Nat.not_lt.mpr hx (hp.code s (hq.code ▸ hs) x heq)

theorem SameBody.kept (h : SameBody p q) : Kept p q := ⟨h.draft.place?, h.scope.shadows, h.scope.labels⟩

theorem SameBody.free (h : SameBody p q) (hnum : p.numVars ≤ q.numVars) {x : VarId} (hx : p.Free x) :
    q.Free x :=
  ⟨⟨Nat.lt_of_lt_of_le hx.lt hnum, h.scope.vars ▸ hx.vars, h.scope.shadows ▸ hx.shadows⟩, h.code ▸ hx.code⟩

theorem goes_extends {x : Lower α} (hp : Ok p) (hx : Extends p.state (x S p.state).2) :
    Goes S A n p (liftM x) fun a q => SameBody p q ∧ a = (x S p.state).1 ∧ q.state = (x S p.state).2 := by
  have hsame : SameBody p (p.after S (liftM x)) := by
    refine ⟨.refl _, ?_⟩
    obtain ⟨d, hd, -⟩ := hp.draft
    have hd' : (p.after S (liftM x)).draft? = some d := hx.builder.drafts _ d hd
    rw [SameDraft, hd, hd']
  exact ⟨hsame.ok hx.builder.vars hp, hsame.later hx.builder.vars hx.globals, hsame.kept, hsame, rfl, rfl⟩

/-- An action that only declares leaves the body alone. -/
theorem goes_lift {x : Lower α} (hp : Ok p) (hx : Framed x) :
    Goes S A n p (liftM x) fun _ q => SameBody p q :=
  (goes_extends hp (hx.declares S p.state).extends).mono fun _ _ _ _ h => h.1

theorem goes_globalField (hp : Ok p) (g : GlobalId) :
    Goes S A n p (liftM (globalField g)) fun f q => SameBody p q ∧ q.state.globals[g]? = some f := by
  obtain ⟨hextends, hfield⟩ := extends_globalField g S p.state
  refine (goes_extends hp hextends).mono fun f q _ _ h => ⟨h.1, ?_⟩
  rw [h.2.1, h.2.2]
  exact hfield

/-! ### Statements and variables -/

/-- A variable that statements may write: that of a value, a shadow, or one that is new enough. -/
def Writable (n : Nat) (p : Point) (x : VarId) : Prop :=
  x < p.numVars ∧
    (n ≤ x ∨ (∃ v : ValueId, p.scope.vars[v]? = some x) ∨ ∃ v : ValueId, p.scope.shadows[v]? = some x)

theorem Writable.later {x : VarId} (h : Writable n p x) (hpq : Later A n' p q) : Writable n q x := by
  refine ⟨Nat.lt_of_lt_of_le h.1 hpq.numVars, h.2.imp_right ?_⟩
  rintro (⟨v, hv⟩ | ⟨v, hv⟩)
  · exact Or.inl ⟨v, hpq.vars.old v x hv⟩
  · exact Or.inr ⟨v, hpq.shadows.old v x hv⟩

/-- A statement writes what it may. -/
def MayWrite (n : Nat) (p : Point) (s : Stmt Label) : Prop := ∀ x, s.defined? = some x → Writable n p x

/-- The statement was added to the body. -/
structure Emitted (s : Stmt Label) (p q : Point) : Prop where
  scope : q.scope = p.scope
  numVars : q.numVars = p.numVars
  globals : q.state.globals = p.state.globals
  draft : ∃ d, p.draft? = some d ∧ q.draft? = some (d.push s)

theorem Emitted.code {s : Stmt Label} (h : Emitted s p q) : q.code = p.code ++ [s] := by
  obtain ⟨d, hd, hd'⟩ := h.draft
  simp [Point.code, hd, hd', Draft.push]

theorem Emitted.ok {s : Stmt Label} (h : Emitted s p q) (hp : Ok p) (hs : MayWrite n p s) : Ok q where
  draft := by
    obtain ⟨d, hd, -, hlabels⟩ := hp.draft
    obtain ⟨e, he, hd'⟩ := h.draft
    obtain rfl := Option.some.inj (hd.symm.trans he)
    refine ⟨_, hd', Draft.waits_push s, fun b l hl => ?_⟩
    rw [Draft.size_labels_push]
    exact hlabels b l (h.scope ▸ hl)
  code t ht x hx := by
    rw [h.code] at ht
    rw [h.numVars]
    rcases List.mem_append.mp ht with ht | ht
    · exact hp.code t ht x hx
    · obtain rfl := List.mem_singleton.mp ht
      exact (hs x hx).1
  vars_lt := by rw [h.scope, h.numVars]; exact hp.vars_lt
  shadows_lt := by rw [h.scope, h.numVars]; exact hp.shadows_lt
  vars_inj := by rw [h.scope]; exact hp.vars_inj
  shadows_inj := by rw [h.scope]; exact hp.shadows_inj
  apart := by rw [h.scope]; exact hp.apart
  labels_inj := by rw [h.scope]; exact hp.labels_inj

theorem Emitted.place? {s : Stmt Label} (h : Emitted s p q) (hp : Ok p) (l : Label) : q.place? l = p.place? l := by
  obtain ⟨d, hd, hwaits, -⟩ := hp.draft
  obtain ⟨e, he, hd'⟩ := h.draft
  obtain rfl := Option.some.inj (hd.symm.trans he)
  rw [Point.place?, hd', Option.bind_some, Draft.place?_push (hwaits l), Point.place?, hd, Option.bind_some]

theorem Emitted.later {s : Stmt Label} (h : Emitted s p q) (hp : Ok p) (hA : A s) (hs : MayWrite n p s) :
    Later A n p q where
  func := by rw [h.scope]
  method := by rw [h.scope]
  numVars := Nat.le_of_eq h.numVars.symm
  vars := by rw [h.scope]; exact .refl _ _
  shadows := by rw [h.scope]; exact .refl _ _
  labels b l hl := h.scope ▸ hl
  globals g f hf := h.globals ▸ hf
  places l t ht := (h.place? hp l).trans ht
  header := by
    obtain ⟨d, hd, hd'⟩ := h.draft
    rw [hd, hd']
    rfl
  code := ⟨[s], h.code, fun t ht => List.mem_singleton.mp ht ▸ hA⟩
  free x hx hfree := by
    refine ⟨⟨h.numVars ▸ hfree.lt, h.scope ▸ hfree.vars, h.scope ▸ hfree.shadows⟩, fun t ht heq => ?_⟩
    rw [h.code] at ht
    rcases List.mem_append.mp ht with ht | ht
    · exact hfree.code t ht heq
    · obtain rfl := List.mem_singleton.mp ht
      rcases (hs x heq).2 with hle | ⟨v, hv⟩ | ⟨v, hv⟩
      · exact Nat.not_lt.mpr hle hx
      · exact hfree.vars v hv
      · exact hfree.shadows v hv

theorem emitted_emit (hp : Ok p) (S : Setting) (s : Stmt Label) : Emitted s p (p.after S (emit s)) := by
  obtain ⟨d, hd, -⟩ := hp.draft
  obtain ⟨errors, heq, -⟩ := Builder.add_eq p.state.builder p.scope.method s
  have hbuilder : (p.after S (emit s)).state.builder = p.state.builder.add p.scope.method s := rfl
  rw [heq] at hbuilder
  refine ⟨rfl, ?_, rfl, d, hd, ?_⟩
  · rw [Point.numVars, hbuilder]
    rfl
  · rw [Point.draft?, hbuilder]
    exact getElem?_modify_eq_some.mpr ⟨d, hd, if_pos rfl⟩

/-- A statement is added at the end of the code. -/
theorem goes_emit (hp : Ok p) {s : Stmt Label} (hA : A s) (hs : MayWrite n p s) :
    Goes S A n p (emit s) fun _ q => q.scope = p.scope ∧ q.code = p.code ++ [s] :=
  have h := emitted_emit hp S s
  ⟨h.ok hp hs, h.later hp hA hs, ⟨h.place? hp, by rw [h.scope], by rw [h.scope]⟩, h.scope, h.code⟩

/-- The position of what comes next is about no body. -/
theorem goes_setPos (hp : Ok p) (pos : Option String) : Goes S A n p (setPos pos) fun _ q => SameBody p q := by
  have hsame : SameBody p (p.after S (setPos pos)) := by
    refine ⟨.refl _, ?_⟩
    obtain ⟨d, hd, -⟩ := hp.draft
    have hd' : (p.after S (setPos pos)).draft? = some { d with pos } :=
      getElem?_modify_eq_some.mpr ⟨d, hd, if_pos rfl⟩
    rw [SameDraft, hd, hd']
    rfl
  exact ⟨hsame.ok (Nat.le_refl _) hp, hsame.later (Nat.le_refl _) fun _ _ h => h, hsame.kept, hsame⟩

/-- The point with one more variable in the method. -/
theorem sameDraft_addVar (hp : Ok p) {name : String} {ty : Ty} (hmethod : q.scope.method = p.scope.method)
    (hstate : q.state = { p.state with builder := (p.state.builder.addVar p.scope.method name ty).1 }) :
    SameDraft p q ∧ q.numVars = p.numVars + 1 ∧ q.state.globals = p.state.globals := by
  obtain ⟨d, hd, -⟩ := hp.draft
  have hd' : q.draft? = some { d with header := { d.header with vars := d.header.vars.push p.numVars } } := by
    rw [Point.draft?, hmethod, hstate]
    exact getElem?_modify_eq_some.mpr ⟨d, hd, if_pos rfl⟩
  refine ⟨?_, ?_, by rw [hstate]⟩
  · rw [SameDraft, hd, hd']
    rfl
  · rw [Point.numVars, hstate]
    exact Array.size_push _

/-- A fresh variable. -/
theorem goes_newVar (hp : Ok p) (name : String) (ty : Ty) :
    Goes S A n p (newVar name ty) fun x q => x = p.numVars ∧ q.numVars = p.numVars + 1 ∧ SameBody p q := by
  obtain ⟨hsame, hnum, hglobals⟩ := sameDraft_addVar (q := p.after S (newVar name ty)) hp rfl rfl
  have hbody : SameBody p (p.after S (newVar name ty)) := ⟨.refl _, hsame⟩
  have hle : p.numVars ≤ (p.after S (newVar name ty)).numVars := by omega
  exact ⟨hbody.ok hle hp, hbody.later hle fun _ _ h => h, hbody.kept, rfl, hnum, hbody⟩

/-- The scope changes, but not what it knows. -/
theorem goes_modify (hp : Ok p) {f : Scope → Scope} (hf : SameScope p.scope (f p.scope)) :
    Goes S A n p (modify f : LowerBody Unit) fun _ q => SameBody p q := by
  have hsame : SameBody p (p.after S (modify f)) := ⟨hf, by
    show (Option.map _ (p.state.builder.drafts[(f p.scope).method]?)) = _
    rw [hf.method]
    rfl⟩
  exact ⟨hsame.ok (Nat.le_refl _) hp, hsame.later (Nat.le_refl _) fun _ _ h => h, hsame.kept, hsame⟩

/-- A fresh variable for something that is no value of the function. -/
theorem goes_temp (hp : Ok p) (hn : n ≤ p.numVars) (t : TypeId) :
    Goes S A n p (temp t) fun x q => n ≤ x ∧ q.Free x ∧ q.code = p.code := by
  refine goes_get ((goes_modify hp ⟨rfl, rfl, rfl, rfl, rfl⟩).bind fun _ p₁ hp₁ h₁ hsame₁ => ?_)
  refine (goes_lift hp₁ (framed_tyOf t)).bind fun ty p₂ hp₂ h₂ hsame₂ => ?_
  refine (goes_newVar hp₂ _ ty).mono fun x q _ _ ⟨hx, hnum, hsame⟩ => ?_
  subst hx
  refine ⟨?_, hp₂.free_of_le hsame (Nat.le_refl _) (hnum ▸ Nat.lt_succ_self _), ?_⟩
  · exact Nat.le_trans hn (Nat.le_trans h₁.numVars h₂.numVars)
  · rw [hsame.code, hsame₂.code, hsame₁.code]

/-- The new variable becomes that of a value, or its shadow. -/
def BindsNew (p q : Point) (v : ValueId) : Prop :=
  (p.scope.vars[v]? = none ∧ q.scope.vars = p.scope.vars.insert v p.numVars ∧ q.scope.shadows = p.scope.shadows) ∨
  (p.scope.shadows[v]? = none ∧ q.scope.vars = p.scope.vars ∧ q.scope.shadows = p.scope.shadows.insert v p.numVars)

theorem BindsNew.grows {v : ValueId} (h : BindsNew p q v) :
    Grows p.numVars p.scope.vars q.scope.vars ∧ Grows p.numVars p.scope.shadows q.scope.shadows := by
  rcases h with ⟨hv, hvars, hshadows⟩ | ⟨hv, hvars, hshadows⟩
  · rw [hvars, hshadows]
    exact ⟨.insert hv (Nat.le_refl _), .refl _ _⟩
  · rw [hvars, hshadows]
    exact ⟨.refl _ _, .insert hv (Nat.le_refl _)⟩

theorem BindsNew.ok {v : ValueId} (h : BindsNew p q v) (hp : Ok p) (hsame : SameDraft p q)
    (hnum : q.numVars = p.numVars + 1) (hlabels : q.scope.labels = p.scope.labels) : Ok q where
  draft := by
    obtain ⟨d, hd, hwaits, hbound⟩ := hp.draft
    obtain ⟨d', hd', -, hl, hpending, -⟩ := hsame.exists_draft hd
    refine ⟨d', hd', fun l hmem => ?_, fun b l hb => ?_⟩
    · rw [hl]
      exact hwaits l (hpending ▸ hmem)
    · rw [hl]
      exact hbound b l (hlabels ▸ hb)
  code s hs x hx := hnum ▸ Nat.lt_succ_of_lt (hp.code s (hsame.code ▸ hs) x hx)
  vars_lt w x hx := by
    rw [hnum]
    rcases h with ⟨-, hvars, -⟩ | ⟨-, hvars, -⟩
    · rw [hvars] at hx
      rcases getElem?_insert_eq_some.mp hx with ⟨-, rfl⟩ | ⟨-, hx⟩
      · exact Nat.lt_succ_self _
      · exact Nat.lt_succ_of_lt (hp.vars_lt w x hx)
    · exact Nat.lt_succ_of_lt (hp.vars_lt w x (hvars ▸ hx))
  shadows_lt w x hx := by
    rw [hnum]
    rcases h with ⟨-, -, hshadows⟩ | ⟨-, -, hshadows⟩
    · exact Nat.lt_succ_of_lt (hp.shadows_lt w x (hshadows ▸ hx))
    · rw [hshadows] at hx
      rcases getElem?_insert_eq_some.mp hx with ⟨-, rfl⟩ | ⟨-, hx⟩
      · exact Nat.lt_succ_self _
      · exact Nat.lt_succ_of_lt (hp.shadows_lt w x hx)
  vars_inj := by
    rcases h with ⟨-, hvars, -⟩ | ⟨-, hvars, -⟩
    · rw [hvars]
      exact insert_inj v hp.vars_lt hp.vars_inj
    · rw [hvars]
      exact hp.vars_inj
  shadows_inj := by
    rcases h with ⟨-, -, hshadows⟩ | ⟨-, -, hshadows⟩
    · rw [hshadows]
      exact hp.shadows_inj
    · rw [hshadows]
      exact insert_inj v hp.shadows_lt hp.shadows_inj
  apart w u x hw hu := by
    rcases h with ⟨-, hvars, hshadows⟩ | ⟨-, hvars, hshadows⟩
    · rw [hvars] at hw
      rw [hshadows] at hu
      rcases getElem?_insert_eq_some.mp hw with ⟨-, rfl⟩ | ⟨-, hw⟩
      · exact Nat.lt_irrefl _ (hp.shadows_lt u _ hu)
      · exact hp.apart w u x hw hu
    · rw [hvars] at hw
      rw [hshadows] at hu
      rcases getElem?_insert_eq_some.mp hu with ⟨-, rfl⟩ | ⟨-, hu⟩
      · exact Nat.lt_irrefl _ (hp.vars_lt w _ hw)
      · exact hp.apart w u x hw hu
  labels_inj := hlabels ▸ hp.labels_inj

/-- An action that makes a variable and binds it. -/
theorem BindsNew.comes {v : ValueId} (h : BindsNew p (p.after S x) v) (hp : Ok p) {name : String} {ty : Ty}
    (hfunc : (p.after S x).scope.func = p.scope.func) (hmethod : (p.after S x).scope.method = p.scope.method)
    (hlabels : (p.after S x).scope.labels = p.scope.labels)
    (hstate : (p.after S x).state = { p.state with builder := (p.state.builder.addVar p.scope.method name ty).1 }) :
    Comes S A n p x fun _ q => SameDraft p q := by
  obtain ⟨hsame, hnum, hglobals⟩ := sameDraft_addVar hp hmethod hstate
  refine ⟨h.ok hp hsame hnum hlabels, ?_, hsame⟩
  exact hsame.later hfunc hmethod (hnum ▸ Nat.le_succ _) h.grows.1 h.grows.2 hlabels fun _ _ h => hglobals ▸ h

theorem goes_bindVar (hp : Ok p) {v : ValueId} (hv : p.scope.vars[v]? = none) (name : String) (ty : Ty) :
    Goes S A n p (do
        let x ← newVar name ty
        modify fun s => { s with vars := s.vars.insert v x }
        return x)
      fun x q => q.scope.vars[v]? = some x ∧ q.code = p.code := by
  have h := BindsNew.comes (S := S) (A := A) (n := n) (p := p) (v := v) (x := do
      let x ← newVar name ty
      modify fun s => { s with vars := s.vars.insert v x }
      return x) (Or.inl ⟨hv, rfl, rfl⟩) hp rfl rfl rfl rfl
  exact ⟨h.ok, h.later, ⟨h.post.place?, rfl, rfl⟩, Std.HashMap.getElem?_insert_self, h.post.code⟩

theorem comes_bindShadow (hp : Ok p) {v : ValueId} (hv : p.scope.shadows[v]? = none) (name : String) (ty : Ty) :
    Comes S A n p (do
        let x ← newVar name ty
        modify fun s => { s with shadows := s.shadows.insert v x })
      fun _ q => (∃ x, q.scope.shadows = p.scope.shadows.insert v x) ∧ q.scope.labels = p.scope.labels ∧
        SameDraft p q := by
  have h := BindsNew.comes (S := S) (A := A) (n := n) (p := p) (v := v) (x := do
      let x ← newVar name ty
      modify fun s => { s with shadows := s.shadows.insert v x }) (Or.inr ⟨hv, rfl, rfl⟩) hp rfl rfl rfl rfl
  exact ⟨h.ok, h.later, ⟨_, rfl⟩, rfl, h.post⟩

/-- A value gets its variable when it is first asked for. -/
theorem goes_varOf (hp : Ok p) (v : ValueId) :
    Goes S A n p (varOf v) fun x q => q.scope.vars[v]? = some x ∧ q.code = p.code := by
  refine goes_get ?_
  cases hv : p.scope.vars[v]? with
  | some x => exact goes_pure hp ⟨hv, rfl⟩
  | none =>
    refine (goes_lift hp (framed_tyOf _)).bind fun ty p₁ hp₁ h₁ hsame₁ => ?_
    refine (goes_bindVar hp₁ (by rw [hsame₁.scope.vars, hv]) _ ty).mono fun x q _ _ h => ?_
    exact ⟨h.1, h.2.trans hsame₁.code⟩

end

end Lowering

end WholeProgram
