import Mathlib.Data.List.Nodup
import WholeProgram.Proofs.PointsTo.Entries
import WholeProgram.Proofs.PointsTo.Recorder

/-!
# What a plugin is told in the course of a run

The notices of a run are held against what the core has.

* `ToldOnce` — the notices tell of all that the core has in the end, once and in order;
* `News`, `Timely` — a notice adds to what was told before it; `Timely.toldOnce` — notices that do, and
  that leave nothing out, tell of everything once;
* `Account`, `Account.Next` — what a plugin can know of the solver, and what can happen to it;
* `Account.Faithful` — what was told is what the core has, but for the call edges that wait to be connected;
  `Faithful.steps` — so it stays.
-/

namespace WholeProgram.PointsTo

open Relation (ReflTransGen)

/-! ## What is told -/

namespace Event

def method? : Event → Option MethodId
  | newMethod m => some m
  | _ => none

def csMethod? : Event → Option CSMethod
  | newCSMethod m => some m
  | _ => none

def edge? : Event → Option CSEdge
  | newCallEdge e => some e
  | _ => none

/-- The objects that are new to a variable. -/
def delta? (ctx : Context) (v : VarId) : Event → Option IdSet
  | newPointsTo c w delta => if c = ctx ∧ w = v then some delta else none
  | _ => none

variable {event : Event}

theorem method?_eq_some {m : MethodId} : event.method? = some m ↔ event = newMethod m := by
  cases event <;> simp [method?]

theorem csMethod?_eq_some {m : CSMethod} : event.csMethod? = some m ↔ event = newCSMethod m := by
  cases event <;> simp [csMethod?]

theorem edge?_eq_some {e : CSEdge} : event.edge? = some e ↔ event = newCallEdge e := by
  cases event <;> simp [edge?]

theorem delta?_eq_some {ctx : Context} {v : VarId} {delta : IdSet} :
    event.delta? ctx v = some delta ↔ event = newPointsTo ctx v delta := by
  cases event <;> simp [delta?, and_assoc]

end Event

def toldMethods (told : List Notice) : List MethodId := told.filterMap (·.event.method?)

def toldCSMethods (told : List Notice) : List CSMethod := told.filterMap (·.event.csMethod?)

def toldEdges (told : List Notice) : List CSEdge := told.filterMap (·.event.edge?)

/-- What was told of a variable, in order. -/
def toldDeltas (ctx : Context) (v : VarId) (told : List Notice) : List IdSet :=
  told.filterMap (·.event.delta? ctx v)

section Concat

variable (told : List Notice) (n : Notice)

@[simp]
theorem toldMethods_concat : toldMethods (told ++ [n]) = toldMethods told ++ n.event.method?.toList := by
  cases h : n.event.method? <;> simp [toldMethods, h]

@[simp]
theorem toldCSMethods_concat :
    toldCSMethods (told ++ [n]) = toldCSMethods told ++ n.event.csMethod?.toList := by
  cases h : n.event.csMethod? <;> simp [toldCSMethods, h]

@[simp]
theorem toldEdges_concat : toldEdges (told ++ [n]) = toldEdges told ++ n.event.edge?.toList := by
  cases h : n.event.edge? <;> simp [toldEdges, h]

@[simp]
theorem toldDeltas_concat (ctx : Context) (v : VarId) :
    toldDeltas ctx v (told ++ [n]) = toldDeltas ctx v told ++ (n.event.delta? ctx v).toList := by
  cases h : n.event.delta? ctx v <;> simp [toldDeltas, h]

end Concat

/-- The notices tell of all that the core has, once and in order. -/
structure ToldOnce (told : List Notice) (core : Core) : Prop where
  delta_nonempty : ∀ ctx v, ∀ delta ∈ toldDeltas ctx v told, ∃ i, i ∈ delta
  /-- The variable has the objects when the plugin hears of them. -/
  delta_held : ∀ n ∈ told, ∀ ctx v delta, n.event = .newPointsTo ctx v delta →
    ∀ i ∈ delta, i ∈ n.seen.pointsTo (.var ctx v)
  deltas_disjoint : ∀ ctx v, (toldDeltas ctx v told).Pairwise fun old new => ∀ i ∈ old, i ∉ new
  deltas_union : ∀ ctx v i,
    i ∈ core.pointsTo (.var ctx v) ↔ ∃ delta ∈ toldDeltas ctx v told, i ∈ delta
  edges_nodup : (toldEdges told).Nodup
  mem_edges : ∀ e, e ∈ toldEdges told ↔ e ∈ core.graph.edges
  csMethods_nodup : (toldCSMethods told).Nodup
  mem_csMethods : ∀ m, m ∈ toldCSMethods told ↔ m ∈ core.graph.reachable
  methods_nodup : (toldMethods told).Nodup
  mem_methods : ∀ m, m ∈ toldMethods told ↔ ∃ ctx, ⟨ctx, m⟩ ∈ core.graph.reachable
  callee_first : ∀ before n after e, told = before ++ n :: after → n.event = .newCallEdge e →
    e.callee ∈ toldCSMethods before
  method_first : ∀ before n after m, told = before ++ n :: after → n.event = .newCSMethod m →
    m.method ∈ toldMethods before

/-- The notice is news after what was told before. -/
def News (told : List Notice) (n : Notice) : Prop :=
  match n.event with
  | .newMethod m => m ∉ toldMethods told
  | .newCSMethod m => m ∉ toldCSMethods told ∧ m.method ∈ toldMethods told
  | .newPointsTo ctx v delta =>
    (∃ i, i ∈ delta) ∧ (∀ i ∈ delta, i ∈ n.seen.pointsTo (.var ctx v)) ∧
      ∀ old ∈ toldDeltas ctx v told, ∀ i ∈ old, i ∉ delta
  | .newCallEdge e => e ∉ toldEdges told ∧ e.callee ∈ toldCSMethods told
  | .start | .finish => True

/-- Every notice was news when it came. -/
inductive Timely : List Notice → Prop
  | nil : Timely []
  | concat {told : List Notice} {n : Notice} : Timely told → News told n → Timely (told ++ [n])

namespace Timely

variable {told : List Notice}

theorem news (h : Timely told) {before after : List Notice} {n : Notice}
    (heq : told = before ++ n :: after) : News before n := by
  induction h generalizing after with
  | nil => simp at heq
  | @concat told last _ hlast ih =>
    rcases List.eq_nil_or_concat after with rfl | ⟨init, x, rfl⟩
    · obtain ⟨rfl, hn⟩ := List.append_inj' heq rfl
      obtain rfl := List.singleton_inj.mp hn
      exact hlast
    · rw [List.concat_eq_append, ← List.cons_append, ← List.append_assoc] at heq
      exact ih (List.append_inj' heq rfl).1

/-- What is read off the notices is related in order, if news is related to what was read before. -/
theorem pairwise {β : Type} {f : Notice → Option β} {R : β → β → Prop} (h : Timely told)
    (hnews : ∀ told n b, News told n → f n = some b → ∀ a ∈ told.filterMap f, R a b) :
    (told.filterMap f).Pairwise R := by
  induction h with
  | nil => exact List.Pairwise.nil
  | @concat told last _ hlast ih =>
    rw [List.filterMap_append]
    refine List.pairwise_append.mpr ⟨ih, ?_, fun a ha b hb => ?_⟩
    · cases hf : f last <;> simp [hf]
    · obtain ⟨n, hn, hread⟩ := List.mem_filterMap.mp hb
      obtain rfl := List.mem_singleton.mp hn
      exact hnews told n b hlast hread a ha

theorem nodup {β : Type} {f : Notice → Option β} (h : Timely told)
    (hnews : ∀ told n b, News told n → f n = some b → b ∉ told.filterMap f) :
    (told.filterMap f).Nodup :=
  h.pairwise fun told n b hn hb _ hold heq => hnews told n b hn hb (heq ▸ hold)

/-- If nothing of what the core has was left out, the notices tell of it once. -/
theorem toldOnce (h : Timely told) {core : Core}
    (hsets : ∀ ctx v i, i ∈ core.pointsTo (.var ctx v) ↔ ∃ delta ∈ toldDeltas ctx v told, i ∈ delta)
    (hedges : ∀ e, e ∈ toldEdges told ↔ e ∈ core.graph.edges)
    (hcsMethods : ∀ m, m ∈ toldCSMethods told ↔ m ∈ core.graph.reachable)
    (hmethods : ∀ m, m ∈ toldMethods told ↔ ∃ ctx, ⟨ctx, m⟩ ∈ core.graph.reachable) :
    ToldOnce told core := by
  have hmem : ∀ n ∈ told, ∃ before, News before n := by
    intro n hn
    obtain ⟨before, after, heq⟩ := List.append_of_mem hn
    exact ⟨before, h.news heq⟩
  refine ⟨?_, ?_, ?_, hsets, ?_, hedges, ?_, hcsMethods, ?_, hmethods, ?_, ?_⟩
  · intro ctx v delta hd
    obtain ⟨n, hn, hd⟩ := List.mem_filterMap.mp hd
    obtain ⟨before, hnews⟩ := hmem n hn
    rw [News, Event.delta?_eq_some.mp hd] at hnews
    exact hnews.1
  · intro n hn ctx v delta hevent
    obtain ⟨before, hnews⟩ := hmem n hn
    rw [News, hevent] at hnews
    exact hnews.2.1
  · intro ctx v
    refine h.pairwise fun told n delta hnews hd old hold => ?_
    rw [News, Event.delta?_eq_some.mp hd] at hnews
    exact hnews.2.2 old hold
  · refine h.nodup fun told n e hnews he => ?_
    rw [News, Event.edge?_eq_some.mp he] at hnews
    exact hnews.1
  · refine h.nodup fun told n m hnews hm => ?_
    rw [News, Event.csMethod?_eq_some.mp hm] at hnews
    exact hnews.1
  · refine h.nodup fun told n m hnews hm => ?_
    rw [News, Event.method?_eq_some.mp hm] at hnews
    exact hnews
  · intro before n after e heq hevent
    have hnews := h.news heq
    rw [News, hevent] at hnews
    exact hnews.2
  · intro before n after m heq hevent
    have hnews := h.news heq
    rw [News, hevent] at hnews
    exact hnews.2

end Timely

/-! ## What a plugin can know of the solver -/

namespace Task

/-- The task makes a method reachable, or connects a call edge. -/
def isLink : Task → Bool
  | reach _ | connect _ => true
  | _ => false

def edge? : Task → Option CSEdge
  | connect e => some e
  | _ => none

end Task

/-- What was told, what the core has of it, and what is left to do for call edges. -/
structure Account where
  told : List Notice
  graph : CSCallGraph
  methods : Std.HashSet MethodId
  sets : Context → VarId → IdSet
  links : List Task

namespace Account

/-- What can happen to the account, and what the plugin is told of it. -/
inductive Next : Account → Account → Prop
  /-- A new call edge is to be connected when its callee is reachable. -/
  | edge {a : Account} (kind : CallKind) (site : CSSite) (callee : CSMethod)
      (hnew : ¬ a.graph.HasEdge site callee) :
      Next a { a with
        graph := (a.graph.addEdge kind site callee).1
        links := .reach callee :: .connect { kind, site, callee } :: a.links }
  | known {a : Account} (m : CSMethod) (hold : m ∈ a.graph.reachable) :
      Next { a with links := .reach m :: a.links } a
  | method {a : Account} (m : CSMethod) (seen : Core) (hnew : m.method ∉ a.methods) :
      Next { a with links := .reach m :: a.links }
        { a with
          told := a.told ++ [⟨.newMethod m.method, seen⟩]
          methods := a.methods.insert m.method
          links := .reach m :: a.links }
  | context {a : Account} (m : CSMethod) (seen : Core) (hnew : m ∉ a.graph.reachable)
      (hold : m.method ∈ a.methods) :
      Next { a with links := .reach m :: a.links }
        { a with
          told := a.told ++ [⟨.newCSMethod m, seen⟩]
          graph := (a.graph.addReachable m).1 }
  | connected {a : Account} (e : CSEdge) (seen : Core) :
      Next { a with links := .connect e :: a.links }
        { a with told := a.told ++ [⟨.newCallEdge e, seen⟩] }
  | grown {a : Account} (ctx : Context) (v : VarId) (delta : IdSet) (seen : Core)
      (sets : Context → VarId → IdSet) (hsome : ∃ i, i ∈ delta) (hnew : ∀ i ∈ delta, ¬ i ∈ a.sets ctx v)
      (hsets : ∀ c w i, i ∈ sets c w ↔ i ∈ a.sets c w ∨ (c = ctx ∧ w = v) ∧ i ∈ delta)
      (hseen : ∀ i ∈ delta, i ∈ seen.pointsTo (.var ctx v)) :
      Next a { a with told := a.told ++ [⟨.newPointsTo ctx v delta, seen⟩], sets }

/-- Every call edge that waits has a callee that is reachable, or will be when its turn comes. -/
def Ready (reached : Set CSMethod) : List Task → Prop
  | [] => True
  | .reach m :: rest => Ready (insert m reached) rest
  | .connect e :: rest => e.callee ∈ reached ∧ Ready reached rest
  | _ :: rest => Ready reached rest

theorem Ready.mono {reached reached' : Set CSMethod} (hsub : reached ⊆ reached') {links : List Task}
    (h : Ready reached links) : Ready reached' links := by
  induction links generalizing reached reached' with
  | nil => trivial
  | cons task rest ih =>
    cases task with
    | reach m => exact ih (Set.insert_subset_insert hsub) h
    | connect e => exact ⟨hsub h.1, ih hsub h.2⟩
    | body | callees | objects | calls => exact ih hsub h

theorem ready_reach (reached : Set CSMethod) (ms : List CSMethod) : Ready reached (ms.map .reach) := by
  induction ms generalizing reached with
  | nil => trivial
  | cons m ms ih => exact ih (insert m reached)

/-- What was told is what the core has, but for the call edges that wait to be connected. -/
structure Faithful (a : Account) : Prop where
  graph : a.graph.Built
  timely : Timely a.told
  sets : ∀ ctx v i, i ∈ a.sets ctx v ↔ ∃ delta ∈ toldDeltas ctx v a.told, i ∈ delta
  edges : (toldEdges a.told ++ a.links.filterMap Task.edge?).Perm a.graph.edges.toList
  csMethods : ∀ m, m ∈ toldCSMethods a.told ↔ m ∈ a.graph.reachable
  methods : ∀ m, m ∈ toldMethods a.told ↔ m ∈ a.methods
  known : ∀ m ∈ a.graph.reachable, m.method ∈ a.methods
  /-- A method is told of when it is about to be reachable in its first context. -/
  due : ∀ m ∈ a.methods, (∃ ctx, ⟨ctx, m⟩ ∈ a.graph.reachable) ∨ ∃ k, .reach k ∈ a.links ∧ k.method = m
  ready : Ready {m | m ∈ a.graph.reachable} a.links

namespace Faithful

variable {a b : Account} {m : CSMethod}

theorem edge (h : a.Faithful) (kind : CallKind) {site : CSSite} {callee : CSMethod}
    (hnew : ¬ a.graph.HasEdge site callee) :
    Faithful { a with
      graph := (a.graph.addEdge kind site callee).1
      links := .reach callee :: .connect { kind, site, callee } :: a.links } := by
  have hreachable : (a.graph.addEdge kind site callee).1.reachable = a.graph.reachable :=
    CallGraph.addEdge_reachable kind site callee
  refine { h with
    graph := h.graph.edge kind site callee
    edges := ?_
    csMethods := fun m => by rw [hreachable]; exact h.csMethods m
    known := fun m hm => h.known m (by rwa [hreachable] at hm)
    due := ?_
    ready := ⟨Set.mem_insert _ _, h.ready.mono ?_⟩ }
  · obtain ⟨hold, -⟩ | ⟨-, joined, outs, ins, heq⟩ := CallGraph.addEdge_eq h.graph.consistent kind site callee
    · exact absurd hold hnew
    · rw [heq, Array.toList_push]
      exact List.perm_middle.trans ((h.edges.cons _).trans (List.perm_append_singleton _ _).symm)
  · intro m hm
    refine (h.due m hm).imp (fun ⟨ctx, hctx⟩ => ⟨ctx, by rwa [hreachable]⟩) fun ⟨k, hk, hkm⟩ => ?_
    exact ⟨k, List.mem_cons_of_mem _ (List.mem_cons_of_mem _ hk), hkm⟩
  · intro m hm
    exact Set.mem_insert_of_mem _ (by rwa [Set.mem_ofPred_eq, hreachable])

/-- A method that is reachable now is not due any more. -/
theorem due_tail (h : Faithful { a with links := .reach m :: a.links }) {graph : CSCallGraph}
    (hgraph : ∀ k, k ∈ graph.reachable ↔ k ∈ a.graph.reachable ∨ m = k) :
    ∀ k ∈ a.methods, (∃ ctx, ⟨ctx, k⟩ ∈ graph.reachable) ∨ ∃ k', .reach k' ∈ a.links ∧ k'.method = k := by
  intro k hk
  rcases h.due k hk with ⟨ctx, hctx⟩ | ⟨k', hk', rfl⟩
  · exact Or.inl ⟨ctx, (hgraph _).mpr (Or.inl hctx)⟩
  · rcases List.mem_cons.mp hk' with heq | hk'
    · obtain rfl := Task.reach.inj heq
      exact Or.inl ⟨k'.ctx, (hgraph _).mpr (Or.inr rfl)⟩
    · exact Or.inr ⟨k', hk', rfl⟩

theorem known_reach (h : Faithful { a with links := .reach m :: a.links })
    (hold : m ∈ a.graph.reachable) : a.Faithful :=
  { h with
    due := h.due_tail fun _ => ⟨Or.inl, fun hk => hk.elim id fun heq => heq ▸ hold⟩
    ready := h.ready.mono (Set.insert_subset hold subset_rfl) }

theorem method (h : Faithful { a with links := .reach m :: a.links }) (seen : Core)
    (hnew : m.method ∉ a.methods) :
    Faithful { a with
      told := a.told ++ [⟨.newMethod m.method, seen⟩]
      methods := a.methods.insert m.method
      links := .reach m :: a.links } := by
  refine { h with
    timely := h.timely.concat fun hm => hnew ((h.methods _).mp hm)
    sets := ?_, edges := ?_, csMethods := ?_, methods := ?_, known := ?_, due := ?_ }
  · simpa [Event.delta?] using h.sets
  · simpa [Event.edge?] using h.edges
  · simpa [Event.csMethod?] using h.csMethods
  · intro k
    rw [toldMethods_concat, List.mem_append, h.methods, Std.HashSet.mem_insert, beq_iff_eq, or_comm,
      eq_comm (a := m.method)]
    simp [Event.method?]
  · intro k hk
    exact Std.HashSet.mem_insert.mpr (Or.inr (h.known k hk))
  · intro k hk
    rcases Std.HashSet.mem_insert.mp hk with heq | hk
    · exact Or.inr ⟨m, List.mem_cons_self, beq_iff_eq.mp heq⟩
    · exact h.due k hk

theorem context (h : Faithful { a with links := .reach m :: a.links }) (seen : Core)
    (hnew : m ∉ a.graph.reachable) (hold : m.method ∈ a.methods) :
    Faithful { a with
      told := a.told ++ [⟨.newCSMethod m, seen⟩]
      graph := (a.graph.addReachable m).1 } := by
  have hreachable := CallGraph.mem_addReachable h.graph.consistent m
  have hready : Ready (insert m {k | k ∈ a.graph.reachable}) a.links := h.ready
  refine { h with
    graph := h.graph.reach m
    timely := h.timely.concat ⟨fun hm => hnew ((h.csMethods m).mp hm), (h.methods _).mpr hold⟩
    sets := ?_, edges := ?_, csMethods := ?_, methods := ?_, known := ?_
    due := h.due_tail hreachable
    ready := hready.mono ?_ }
  · simpa [Event.delta?] using h.sets
  · rw [CallGraph.addReachable_edges]
    simpa [List.filterMap_cons, Event.edge?, Task.edge?] using h.edges
  · intro k
    rw [toldCSMethods_concat, List.mem_append, h.csMethods, hreachable]
    simp [Event.csMethod?, eq_comm]
  · simpa [Event.method?] using h.methods
  · intro k hk
    rcases (hreachable k).mp hk with hk | rfl
    · exact h.known k hk
    · exact hold
  · rintro k (rfl | hk)
    · exact (hreachable k).mpr (Or.inr rfl)
    · exact (hreachable k).mpr (Or.inl hk)

theorem connected {e : CSEdge} (h : Faithful { a with links := .connect e :: a.links }) (seen : Core) :
    Faithful { a with told := a.told ++ [⟨.newCallEdge e, seen⟩] } := by
  have hnodup : (toldEdges a.told ++ e :: a.links.filterMap Task.edge?).Nodup :=
    h.edges.nodup_iff.mpr (h.graph.nodup_edges.of_map _)
  have hnew : e ∉ toldEdges a.told := fun he =>
    (List.nodup_append.mp hnodup).2.2 e he e List.mem_cons_self rfl
  refine { h with
    timely := h.timely.concat ⟨hnew, (h.csMethods _).mpr h.ready.1⟩
    sets := ?_, edges := ?_, csMethods := ?_, methods := ?_, due := ?_
    ready := h.ready.2 }
  · simpa [Event.delta?] using h.sets
  · simpa [List.filterMap_cons, Event.edge?, Task.edge?] using h.edges
  · simpa [Event.csMethod?] using h.csMethods
  · simpa [Event.method?] using h.methods
  · intro m hm
    simpa using h.due m hm

theorem grown (h : a.Faithful) {ctx : Context} {v : VarId} {delta : IdSet} (seen : Core)
    {sets : Context → VarId → IdSet} (hsome : ∃ i, i ∈ delta) (hnew : ∀ i ∈ delta, ¬ i ∈ a.sets ctx v)
    (hsets : ∀ c w i, i ∈ sets c w ↔ i ∈ a.sets c w ∨ (c = ctx ∧ w = v) ∧ i ∈ delta)
    (hseen : ∀ i ∈ delta, i ∈ seen.pointsTo (.var ctx v)) :
    Faithful { a with told := a.told ++ [⟨.newPointsTo ctx v delta, seen⟩], sets } := by
  refine { h with
    timely := h.timely.concat ⟨hsome, hseen, fun old hold i hi hd => ?_⟩
    sets := ?_, edges := ?_, csMethods := ?_, methods := ?_ }
  · exact hnew i hd ((h.sets ctx v i).mpr ⟨old, hold, hi⟩)
  · intro c w i
    rw [hsets, h.sets]
    by_cases hvar : ctx = c ∧ v = w
    · obtain ⟨rfl, rfl⟩ := hvar
      simp [Event.delta?, or_and_right, exists_or]
    · have hvar' : ¬ (c = ctx ∧ w = v) := fun hcw => hvar ⟨hcw.1.symm, hcw.2.symm⟩
      simp [Event.delta?, hvar, hvar']
  · simpa [Event.edge?] using h.edges
  · simpa [Event.csMethod?] using h.csMethods
  · simpa [Event.method?] using h.methods

theorem finish (h : a.Faithful) (seen : Core) :
    Faithful { a with told := a.told ++ [⟨.finish, seen⟩] } := by
  refine { h with
    timely := h.timely.concat trivial
    sets := ?_, edges := ?_, csMethods := ?_, methods := ?_ }
  · simpa [Event.delta?] using h.sets
  · simpa [Event.edge?] using h.edges
  · simpa [Event.csMethod?] using h.csMethods
  · simpa [Event.method?] using h.methods

theorem next (h : a.Faithful) (hnext : a.Next b) : b.Faithful := by
  cases hnext with
  | edge kind site callee hnew => exact h.edge kind hnew
  | known m hold => exact h.known_reach hold
  | method m seen hnew => exact h.method seen hnew
  | context m seen hnew hold => exact h.context seen hnew hold
  | connected e seen => exact h.connected seen
  | grown ctx v delta seen sets hsome hnew hsets hseen => exact h.grown seen hsome hnew hsets hseen

theorem steps (h : a.Faithful) (hsteps : ReflTransGen Next a b) : b.Faithful := by
  induction hsteps with
  | refl => exact h
  | tail _ hnext ih => exact ih.next hnext

end Faithful

end Account

end WholeProgram.PointsTo
