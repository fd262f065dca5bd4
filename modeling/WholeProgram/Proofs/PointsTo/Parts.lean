import Mathlib.Logic.Relation
import WholeProgram.PointsTo.Solver
import WholeProgram.Proofs.CallGraph.Views

/-!
# What the solver does, part by part

Whatever the solver does with a task, or with an entry of the worklist, is made of few things: tasks
are put on the agenda, requests are carried out, the plugin is told of an event, a note is left, and
the methods, the edges and the points-to sets of the core grow.

* `addCallEdge_cases`, `reach_cases` — how the call graph grows, and what the solver does about it;
* `Part` — one thing that the solver does;
* `parts_perform`, `parts_takeEntry` — a task, and an entry, is done by parts;
* `Parts.keeps` — what no part changes stays as it is.
-/

namespace WholeProgram.PointsTo.Machine

variable {π : Type} {S : Setting π} {s t : Machine π}

/-! ## The call graph -/

/-- A call edge that is new is to be connected once its callee is reachable; nothing is done about one
that is there. -/
theorem addCallEdge_cases (hg : s.core.graph.Consistent) (kind : CallKind) (site : CSSite) (m : CSMethod) :
    (s.core.graph.HasEdge site m ∧ s.addCallEdge kind site m = s) ∨
    (¬ s.core.graph.HasEdge site m ∧ s.addCallEdge kind site m =
      { core := { s.core with graph := (s.core.graph.addEdge kind site m).1 }, plugin := s.plugin,
        agenda := [.reach m, .connect { kind, site, callee := m }] ++ s.agenda,
        iterations := s.iterations }) := by
  unfold addCallEdge
  rcases CallGraph.addEdge_eq hg kind site m with ⟨hold, heq⟩ | ⟨hnew, joined, outs, ins, heq⟩
  · exact Or.inl ⟨hold, by rw [heq]⟩
  · exact Or.inr ⟨hnew, by rw [heq]; rfl⟩

/-- The machine with a method that is reachable now and with its body to be looked at, before the plugin
hears of the method. -/
def enter (m : CSMethod) (s : Machine π) : Machine π :=
  ({ s with core := { s.core with graph := (s.core.graph.addReachable m).1 } } : Machine π).push [.body m 0]

/-- A method that becomes reachable is listed, if it is so in whatever context for the first time, and the
plugin hears of it. -/
def announce (S : Setting π) (m : MethodId) (s : Machine π) : Machine π :=
  ({ s with core := { s.core with methods := s.core.methods.insert m } } : Machine π).notify S (.newMethod m)

/-- A method that is new in its context has its body looked at, and the plugin hears of it; nothing is done
about one that is reachable. -/
theorem reach_cases (hg : s.core.graph.Consistent) (m : CSMethod) :
    (m ∈ s.core.graph.reachable ∧ s.reach S m = s) ∨
    (m ∉ s.core.graph.reachable ∧
      ((m.method ∈ s.core.methods ∧ s.reach S m = (s.enter m).notify S (.newCSMethod m)) ∨
        (m.method ∉ s.core.methods ∧
          s.reach S m = ((s.enter m).announce S m.method).notify S (.newCSMethod m)))) := by
  unfold reach enter
  rcases CallGraph.addReachable_eq hg m with ⟨hold, heq⟩ | ⟨hnew, heq⟩
  · exact Or.inl ⟨hold, by rw [heq]⟩
  · refine Or.inr ⟨hnew, ?_⟩
    rw [heq]
    dsimp only
    split
    · rename_i hknown
      exact Or.inl ⟨Std.HashSet.contains_iff_mem.mp hknown, rfl⟩
    · rename_i hknown
      exact Or.inr ⟨fun h => hknown (Std.HashSet.contains_iff_mem.mpr h), rfl⟩

/-! ## Parts -/

/-- A part of what the solver does with a task or with an entry of the worklist. -/
inductive Part (S : Setting π) : Machine π → Machine π → Prop
  | push (tasks : List Task) (s : Machine π) : Part S s (s.push tasks)
  | request (rs : List Request) (s : Machine π) : Part S s (s.request rs)
  | notify (e : Event) (s : Machine π) : Part S s (s.notify S e)
  | note (n : Note) (s : Machine π) : Part S s { s with core := s.core.note n }
  | method (m : MethodId) (s : Machine π) :
      Part S s { s with core := { s.core with methods := s.core.methods.insert m } }
  | reachable (m : CSMethod) (s : Machine π) :
      Part S s { s with core := { s.core with graph := (s.core.graph.addReachable m).1 } }
  | edge (kind : CallKind) (site : CSSite) (m : CSMethod) (s : Machine π) :
      Part S s { s with core := { s.core with graph := (s.core.graph.addEdge kind site m).1 } }
  | grow (q : Pointer) (objs : IdSet) (s : Machine π) :
      Part S s { s with core := (s.core.propagate q objs).1 }

/-- One part after another leads from `s` to `t`. -/
abbrev Parts (S : Setting π) : Machine π → Machine π → Prop := Relation.ReflTransGen (Part S)

/-- What no part changes stays as it is. -/
theorem Parts.keeps {α : Type} {f : Machine π → α} (hf : ∀ {s t}, Part S s t → f t = f s)
    (h : Parts S s t) : f t = f s := by
  induction h with
  | refl => rfl
  | tail _ hpart ih => exact (hf hpart).trans ih

theorem parts_push (tasks : List Task) (s : Machine π) : Parts S s (s.push tasks) :=
  .single (.push tasks s)

theorem parts_request (rs : List Request) (s : Machine π) : Parts S s (s.request rs) :=
  .single (.request rs s)

/-! ## Tasks -/

theorem parts_addCallEdge (kind : CallKind) (site : CSSite) (m : CSMethod) (s : Machine π) :
    Parts S s (s.addCallEdge kind site m) := by
  have hedge := Part.edge (S := S) kind site m s
  unfold addCallEdge
  split
  · exact .refl
  · rename_i graph heq
    rw [heq] at hedge
    exact .tail (.single hedge) (.push _ _)

theorem parts_reach (m : CSMethod) (s : Machine π) : Parts S s (s.reach S m) := by
  have hreach := Part.reachable (S := S) m s
  -- the plugin is told of the method in its context, and its body is a task
  have htold : ∀ t : Machine π, Parts S t ((t.notify S (.newCSMethod m)).push [.body m 0]) := fun t =>
    .tail (.single (.notify _ t)) (.push _ _)
  unfold reach
  split
  · exact .refl
  · rename_i graph heq
    rw [heq] at hreach
    dsimp only
    split
    · exact .head hreach (htold _)
    · exact .head hreach (.head (.method m.method _) (.head (.notify _ _) (htold _)))

theorem parts_unresolved (e : DispatchError) (s : Machine π) : Parts S s (s.unresolved S e).1 := by
  unfold unresolved
  split
  · exact .single (.note _ s)
  · exact .refl

theorem parts_processStmt (m : CSMethod) (i : Nat) (stmt : Stmt Nat) (s : Machine π) :
    Parts S s (s.processStmt S m i stmt).1 := by
  unfold processStmt
  split
  · split
    · exact .refl
    · dsimp only
      split
      · exact .refl
      · split
        · exact (parts_push _ s).trans (parts_unresolved _ _)
        · exact parts_push _ s
  · exact parts_request _ s

theorem parts_processCall (ctx : Context) (site : Site) (o : CSObjId) (s : Machine π) :
    Parts S s (s.processCall S ctx site o).1 := by
  unfold processCall
  split
  · exact .refl
  · dsimp only
    split
    · exact parts_unresolved _ s
    · exact .refl
    · exact (parts_request _ s).trans (parts_addCallEdge _ _ _ _)

/-- A task is done by parts, whether it fails or not. -/
theorem parts_perform (s : Machine π) (task : Task) : Parts S s (s.perform S task).1 := by
  cases task with
  | reach m => exact parts_reach m s
  | body m i =>
    simp only [perform]
    split
    · exact .refl
    · exact (parts_push _ s).trans (parts_processStmt _ _ _ _)
  | callees site call rest =>
    cases rest with
    | nil => exact .refl
    | cons m rest => exact (parts_push _ s).trans (parts_addCallEdge _ _ _ _)
  | connect e => exact .tail (parts_request _ s) (.notify _ _)
  | objects ctx v rest =>
    cases rest with
    | nil => exact .refl
    | cons o rest => exact (parts_request _ s).trans (parts_push _ _)
  | calls ctx o rest =>
    cases rest with
    | nil => exact .refl
    | cons site rest => exact (parts_push _ s).trans (parts_processCall _ _ _ _)

/-- So is an entry of the worklist. -/
theorem parts_takeEntry (q : Pointer) (objs : IdSet) (s : Machine π) :
    Parts S s (s.takeEntry S q objs) := by
  have hgrow := Part.grow (S := S) q objs s
  unfold takeEntry
  dsimp only
  split
  · exact .single hgrow
  · split
    · exact .head hgrow (.tail (.single (.notify _ _)) (.push _ _))
    · exact .single hgrow

end WholeProgram.PointsTo.Machine
