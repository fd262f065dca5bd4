import Mathlib.Order.Bounds.Basic
import WholeProgram.PointsTo.Solver

/-!
# The rules of the pointer analysis

What the analysis is meant to find, as a set of facts closed under rules. The rules say nothing of
worklists, of differences or of the order of discovery:

* `Does` — what a statement of a reachable method gives by itself;
* `Uses` — what a statement through a variable gives for an object of that variable;
* `Links` — what flows along a call edge;
* `Yields`, `Closed` — one application of the rules to a set of facts, and the sets that no rule
  leaves.

A statement belongs to a method, and so do variables. When methods use only variables of their own,
it makes no difference whether the rules of `Uses` ask for the method of the statement to be
reachable (`isLeast_closed_guarded`); they are stated both ways.
-/

namespace WholeProgram.PointsTo

/-- What the analysis can find. -/
inductive Fact where
  /-- The method is reachable in the context. -/
  | reach (m : CSMethod)
  /-- The call site may run the method. -/
  | edge (site : CSSite) (callee : CSMethod)
  /-- All objects of the source are objects of the target. -/
  | flow (source target : Pointer)
  /-- The pointer may point to the object. -/
  | holds (q : Pointer) (o : HeapObj)
  /-- Some call that must be resolved cannot be. -/
  | fault

/-- Statement `i` of the reachable method `m` gives a fact. -/
inductive Does (p : Program) (opts : Options) (m : CSMethod) (i : Nat) : Fact → Prop
  | new {x : VarId} {t : Ty} : p.stmt? ⟨m.method, i⟩ = some (.new x t) →
      Does p opts m i
        (.holds (.var m.ctx x) ⟨opts.selector.heapContext m.ctx, .ofAlloc ⟨m.method, i⟩ t⟩)
  | copy {x y : VarId} : p.stmt? ⟨m.method, i⟩ = some (.copy x y) →
      Does p opts m i (.flow (.var m.ctx y) (.var m.ctx x))
  | loadStatic {x : VarId} {f : FieldId} : p.stmt? ⟨m.method, i⟩ = some (.loadField x none f) →
      Does p opts m i (.flow (.static f) (.var m.ctx x))
  | storeStatic {f : FieldId} {y : VarId} : p.stmt? ⟨m.method, i⟩ = some (.storeField none f y) →
      Does p opts m i (.flow (.var m.ctx y) (.static f))
  | call {x : Option VarId} {call : Call} {r : Program.Resolved} {callee : MethodId} :
      p.stmt? ⟨m.method, i⟩ = some (.invoke x call) → call.base = none →
      p.resolve ⟨m.method, i⟩ call = .ok r → callee ∈ r.callees →
      Does p opts m i (.edge ⟨m.ctx, ⟨m.method, i⟩⟩
        ⟨opts.selector.staticContext m.ctx ⟨m.method, i⟩, callee⟩)
  | unresolved {x : Option VarId} {call : Call} {r : Program.Resolved} {e : DispatchError} :
      p.stmt? ⟨m.method, i⟩ = some (.invoke x call) → call.base = none →
      p.resolve ⟨m.method, i⟩ call = .ok r → r.error = some e → opts.ignoreUnresolved = false →
      Does p opts m i .fault
  | undeclared {x : Option VarId} {call : Call} {code : Int} :
      p.stmt? ⟨m.method, i⟩ = some (.invoke x call) → call.base = none →
      p.resolve ⟨m.method, i⟩ call = .error code →
      Does p opts m i .fault

/-- The statement at `site` goes through the variable `b`, and gives a fact for an object `o` that
`b` points to in context `c`. -/
inductive Uses (p : Program) (opts : Options) (c : Context) (b : VarId) (o : HeapObj)
    (site : Site) : Fact → Prop
  | loadField {x : VarId} {f : FieldId} : p.stmt? site = some (.loadField x (some b) f) →
      Uses p opts c b o site (.flow (.field o f) (.var c x))
  | storeField {f : FieldId} {y : VarId} : p.stmt? site = some (.storeField (some b) f y) →
      Uses p opts c b o site (.flow (.var c y) (.field o f))
  | loadArray {x i : VarId} : p.stmt? site = some (.loadArray x b i) →
      Uses p opts c b o site (.flow (.array o) (.var c x))
  | storeArray {i y : VarId} : p.stmt? site = some (.storeArray b i y) →
      Uses p opts c b o site (.flow (.var c y) (.array o))
  | call {x : Option VarId} {call : Call} {m : MethodId} :
      p.stmt? site = some (.invoke x call) → call.base = some b →
      Machine.calleeOn p o.obj site call = .ok (some m) →
      Uses p opts c b o site (.edge ⟨c, site⟩ (Machine.calleeIn p opts.selector c site o m))
  | receiver {x : Option VarId} {call : Call} {m : MethodId} {r : VarId} :
      p.stmt? site = some (.invoke x call) → call.base = some b →
      Machine.calleeOn p o.obj site call = .ok (some m) → (p.method m).receiver = some r →
      Uses p opts c b o site (.holds (.var (Machine.calleeIn p opts.selector c site o m).ctx r) o)
  | unresolved {x : Option VarId} {call : Call} {e : DispatchError} :
      p.stmt? site = some (.invoke x call) → call.base = some b →
      Machine.calleeOn p o.obj site call = .error e → opts.ignoreUnresolved = false →
      Uses p opts c b o site .fault

/-- A call edge gives a flow: arguments into parameters by position, returned variables into the
result. -/
inductive Links (p : Program) (site : CSSite) (callee : CSMethod) : Fact → Prop
  | arg {x : Option VarId} {call : Call} {k : Nat} {y v : VarId} :
      p.stmt? site.site = some (.invoke x call) → call.args[k]? = some y →
      (p.method callee.method).params[k]? = some v →
      Links p site callee (.flow (.var site.ctx y) (.var callee.ctx v))
  | result {x : VarId} {call : Call} {i : Nat} {y : VarId} :
      p.stmt? site.site = some (.invoke (some x) call) →
      p.stmt? ⟨callee.method, i⟩ = some (.ret (some y)) →
      Links p site callee (.flow (.var callee.ctx y) (.var site.ctx x))

/-- One application of the rules to the facts of `X`. If `guarded`, a statement through a variable
counts only in a method that is reachable in the context of the variable. -/
inductive Yields (p : Program) (opts : Options) (guarded : Bool) (X : Set Fact) : Fact → Prop
  | entry {m : MethodId} : m ∈ p.entries → Yields p opts guarded X (.reach ⟨[], m⟩)
  | stmt {m : CSMethod} {i : Nat} {f : Fact} : .reach m ∈ X → Does p opts m i f →
      Yields p opts guarded X f
  | through {c : Context} {b : VarId} {o : HeapObj} {site : Site} {f : Fact} :
      .holds (.var c b) o ∈ X → Uses p opts c b o site f →
      (guarded = true → .reach ⟨c, site.method⟩ ∈ X) → Yields p opts guarded X f
  | callee {site : CSSite} {m : CSMethod} : .edge site m ∈ X → Yields p opts guarded X (.reach m)
  | link {site : CSSite} {m : CSMethod} {f : Fact} : .edge site m ∈ X → Links p site m f →
      Yields p opts guarded X f
  | flow {a b : Pointer} {o : HeapObj} : .flow a b ∈ X → .holds a o ∈ X →
      Yields p opts guarded X (.holds b o)

/-- The rules lead nowhere outside the set. -/
def Closed (p : Program) (opts : Options) (guarded : Bool) (X : Set Fact) : Prop :=
  ∀ ⦃f : Fact⦄, Yields p opts guarded X f → f ∈ X

variable {p : Program} {opts : Options} {guarded : Bool} {X Y : Set Fact} {f : Fact}

/-- More facts yield more. -/
theorem Yields.mono (hXY : X ⊆ Y) (h : Yields p opts guarded X f) : Yields p opts guarded Y f := by
  cases h with
  | entry hm => exact .entry hm
  | stmt hr hd => exact .stmt (hXY hr) hd
  | through hh hu hg => exact .through (hXY hh) hu fun hguard => hXY (hg hguard)
  | callee he => exact .callee (hXY he)
  | link he hl => exact .link (hXY he) hl
  | flow hf hh => exact .flow (hXY hf) (hXY hh)

/-- What the rules ask for because of a method that is reachable, or of a call edge. -/
def Fact.leadsTo (p : Program) (opts : Options) : Fact → Set Fact
  | .reach m => {f | ∃ i, Does p opts m i f}
  | .edge site m => {f | f = .reach m ∨ Links p site m f}
  | _ => ∅

/-- With one more fact about the call graph the rules ask for what it leads to, and nothing else besides:
no rule takes such a fact together with another one. -/
theorem Yields.of_insert {N : Fact} (hflow : ∀ a b, N ≠ .flow a b) (hholds : ∀ q o, N ≠ .holds q o)
    (h : Yields p opts false (insert N X) f) : Yields p opts false X f ∨ f ∈ N.leadsTo p opts := by
  cases h with
  | entry hm => exact Or.inl (.entry hm)
  | stmt hr hd =>
    rcases hr with rfl | hr
    · exact Or.inr ⟨_, hd⟩
    · exact Or.inl (.stmt hr hd)
  | through hh hu _ =>
    exact Or.inl (.through (hh.resolve_left fun heq => hholds _ _ heq.symm) hu nofun)
  | callee he =>
    rcases he with rfl | he
    · exact Or.inr (Or.inl rfl)
    · exact Or.inl (.callee he)
  | link he hl =>
    rcases he with rfl | he
    · exact Or.inr (Or.inr hl)
    · exact Or.inl (.link he hl)
  | flow hab hh =>
    exact Or.inl (.flow (hab.resolve_left fun heq => hflow _ _ heq.symm)
      (hh.resolve_left fun heq => hholds _ _ heq.symm))

/-- Without the guard the rules yield at least as much. -/
theorem Yields.unguard (h : Yields p opts guarded X f) : Yields p opts false X f := by
  cases h with
  | entry hm => exact .entry hm
  | stmt hr hd => exact .stmt hr hd
  | through hh hu _ => exact .through hh hu (by simp)
  | callee he => exact .callee he
  | link he hl => exact .link he hl
  | flow hf hh => exact .flow hf hh

theorem Closed.guard (h : Closed p opts false X) : Closed p opts guarded X :=
  fun _ hy => h hy.unguard

/-! ## Methods that use only their own variables -/

/-- The method that a variable belongs to. -/
def ownerOf? (p : Program) (v : VarId) : Option MethodId := (p.vars[v]?).map (·.method)

/-- Every method uses only variables of its own. -/
structure OwnVars (p : Program) : Prop where
  defined {site : Site} {s : Stmt Nat} {v : VarId} : p.stmt? site = some s → s.defined? = some v →
    ownerOf? p v = some site.method
  base {site : Site} {s : Stmt Nat} {v : VarId} : p.stmt? site = some s → s.base? = some v →
    ownerOf? p v = some site.method
  param {m : MethodId} {v : VarId} : v ∈ (p.method m).params → ownerOf? p v = some m
  receiver {m : MethodId} {v : VarId} : (p.method m).receiver = some v → ownerOf? p v = some m

/-- A variable with objects belongs to a method that is reachable in the context. -/
def Pointer.Live (p : Program) (X : Set Fact) : Pointer → Prop
  | .var c v => ∀ m, ownerOf? p v = some m → .reach ⟨c, m⟩ ∈ X
  | _ => True

/-- What a fact says of variables and call sites, it says in a reachable method. -/
def Fact.Live (p : Program) (X : Set Fact) : Fact → Prop
  | .edge site _ => .reach ⟨site.ctx, site.site.method⟩ ∈ X
  | .flow _ b => b.Live p X
  | .holds q _ => q.Live p X
  | _ => True

theorem Pointer.live_var {c : Context} {v : VarId} {m : MethodId} (howner : ownerOf? p v = some m)
    (hr : .reach ⟨c, m⟩ ∈ X) : (Pointer.var c v).Live p X := by
  intro m' hm'
  rw [howner] at hm'
  cases hm'
  exact hr

theorem Does.live (hown : OwnVars p) {m : CSMethod} {i : Nat} (h : Does p opts m i f)
    (hr : .reach m ∈ X) : f.Live p X := by
  cases h with
  | new hs => exact Pointer.live_var (hown.defined hs rfl) hr
  | copy hs => exact Pointer.live_var (hown.defined hs rfl) hr
  | loadStatic hs => exact Pointer.live_var (hown.defined hs rfl) hr
  | storeStatic => exact trivial
  | call => exact hr
  | unresolved => exact trivial
  | undeclared => exact trivial

theorem Links.live (hown : OwnVars p) {site : CSSite} {m : CSMethod} (h : Links p site m f)
    (hsite : .reach ⟨site.ctx, site.site.method⟩ ∈ X) (hm : .reach m ∈ X) : f.Live p X := by
  cases h with
  | arg _ _ hv => exact Pointer.live_var (hown.param (Array.mem_of_getElem? hv)) hm
  | result hs _ => exact Pointer.live_var (hown.defined hs rfl) hsite

/-- The base of a statement is a variable of the method of the statement. -/
theorem Uses.base? {c : Context} {b : VarId} {o : HeapObj} {site : Site}
    (h : Uses p opts c b o site f) :
    ∃ s, p.stmt? site = some s ∧ s.base? = some b := by
  cases h with
  | loadField hs | storeField hs | loadArray hs | storeArray hs => exact ⟨_, hs, rfl⟩
  | call hs hb _ | receiver hs hb _ _ | unresolved hs hb _ _ => exact ⟨_, hs, hb⟩

theorem Uses.live (hown : OwnVars p) (hX : Closed p opts true X) {c : Context} {b : VarId}
    {o : HeapObj} {site : Site} (hh : .holds (.var c b) o ∈ X) (h : Uses p opts c b o site f)
    (hr : .reach ⟨c, site.method⟩ ∈ X) : f.Live p X := by
  cases h with
  | loadField hs => exact Pointer.live_var (hown.defined hs rfl) hr
  | storeField => exact trivial
  | loadArray hs => exact Pointer.live_var (hown.defined hs rfl) hr
  | storeArray => exact trivial
  | call => exact hr
  | receiver hs hb hm hrecv =>
    -- the call edge of the same rule makes the callee reachable
    have hedge := hX (.through hh (.call hs hb hm) fun _ => hr)
    exact Pointer.live_var (hown.receiver hrecv) (hX (.callee hedge))
  | unresolved => exact trivial

/-- The live facts of a set closed under the guarded rules are closed under the plain ones. -/
theorem Closed.live (hown : OwnVars p) (hX : Closed p opts true X) :
    Closed p opts false {f | f ∈ X ∧ f.Live p X} := by
  intro f hf
  cases hf with
  | entry hm => exact ⟨hX (.entry hm), trivial⟩
  | stmt hr hd => exact ⟨hX (.stmt hr.1 hd), hd.live hown hr.1⟩
  | through hh hu _ =>
    obtain ⟨s, hs, hb⟩ := hu.base?
    have hreach := hh.2 _ (hown.base hs hb)
    exact ⟨hX (.through hh.1 hu fun _ => hreach), hu.live hown hX hh.1 hreach⟩
  | callee he => exact ⟨hX (.callee he.1), trivial⟩
  | link he hl => exact ⟨hX (.link he.1 hl), hl.live hown he.2 (hX (.callee he.1))⟩
  | flow hf hh => exact ⟨hX (.flow hf.1 hh.1), hf.2⟩

/-- For methods that use only their own variables the guard changes nothing. -/
theorem isLeast_closed_guarded (hown : guarded = true → OwnVars p)
    (h : IsLeast {X | Closed p opts false X} X) : IsLeast {X | Closed p opts guarded X} X := by
  refine ⟨h.1.guard, ?_⟩
  intro Y hY
  cases guarded with
  | false => exact h.2 hY
  | true => exact fun f hf => (h.2 (hY.live (hown rfl)) hf).1

end WholeProgram.PointsTo
