import Mathlib.Data.List.Perm.Subperm
import WholeProgram.Lowering.Basic
import WholeProgram.Proofs.Lowering.Bodies

/-!
# Lowered programs are accepted

A lowering declares the packages, lowers one body after the other, and declares what is still missing then.

* `Rounds` — functions get their bodies in the order in which they were queued;
* `Invariant.round`, `Rounds.spec` — what a round keeps, and what all rounds keep;
* `exists_rounds` — the loop ends because no function is waiting any more;
* `lowersOnce` — every function that is queued gets its body once;
* `lower_accepted` — the builder has no fault to report, and what was counted is what there is.
-/

namespace WholeProgram.Lowering

open Ssa (TypeId FuncId GlobalId)

variable {S : Setting} {done done' : List Work} {s t : State} {f : FuncId} {m : MethodId}

/-! ## Rounds -/

/-- The functions get their bodies, each time the one that was queued first. -/
inductive Rounds (S : Setting) : State → List Work → State → Prop
  | nil (s : State) : Rounds S s [] s
  | cons {s t : State} {f : FuncId} {m : MethodId} {rest done : List Work} : s.waiting = (f, m) :: rest →
      Rounds S (lowerFunction f m S { s with waiting := rest }).2 done t → Rounds S s ((f, m) :: done) t

/-- Rounds that begin alike go on alike. -/
theorem Rounds.split (h : Rounds S s done t) {before : List Work} {s' : State} (h' : Rounds S s before s')
    (hend : t.waiting = []) : ∃ after, done = before ++ after ∧ Rounds S s' after t := by
  induction h' generalizing done with
  | nil s => exact ⟨done, rfl, h⟩
  | cons hw' _ ih =>
    cases h with
    | nil =>
      rw [hend] at hw'
      cases hw'
    | cons hw h =>
      rw [hw] at hw'
      cases hw'
      obtain ⟨after, rfl, hafter⟩ := ih h
      exact ⟨after, rfl, hafter⟩

/-- One more function has its body, and those that waited behind it wait as before. -/
theorem Invariant.round {rest : List Work} (h : Invariant S done [] (fun _ _ => False) s)
    (hw : s.waiting = (f, m) :: rest) :
    Invariant S (done ++ [(f, m)]) rest (fun _ _ => False) (lowerFunction f m S { s with waiting := rest }).2 := by
  have hqueue : done ++ s.waiting = done ++ [(f, m)] ++ rest := by rw [hw, List.append_assoc, List.singleton_append]
  refine keeps_lowerFunction f m ⟨⟨h.errors, h.names, h.size, h.interfaces⟩, h.listed, h.settled, ?_,
    List.prefix_refl _, ?_, ?_⟩
  · show Queued S (done ++ [(f, m)] ++ rest) _
    rw [← hqueue]
    exact h.queued.mono (fun _ _ hk => hk) (Nat.le_refl _)
  · show s.functions + 1 = (done ++ [(f, m)]).length
    rw [List.length_append, List.length_singleton, h.functions]
  · have hcount := h.count
    rw [hw, List.length_cons] at hcount
    show s.builder.drafts.size = s.functions + 1 + s.stubs + rest.length
    omega

/-- All that waits before some rounds had its body after them, or still waits. -/
theorem Rounds.spec (hr : Rounds S s done' t) (h : Invariant S done [] (fun _ _ => False) s) :
    Invariant S (done ++ done') [] (fun _ _ => False) t ∧ s.waiting <+: done' ++ t.waiting := by
  induction hr generalizing done with
  | nil s =>
    rw [List.append_nil]
    exact ⟨h, List.prefix_refl _⟩
  | @cons s t f m rest done' hw _ ih =>
    have hround := h.round hw
    obtain ⟨hinv, hrest⟩ := ih { hround with ahead := List.nil_prefix }
    rw [List.append_cons]
    refine ⟨hinv, ?_⟩
    rw [hw]
    exact List.cons_prefix_cons.mpr ⟨rfl, hround.ahead.trans hrest⟩

/-- Different functions have their bodies, so there are no more rounds than functions. -/
theorem Invariant.length_le (h : Invariant S done [] (fun _ _ => False) s) : done.length ≤ S.source.funcs.size := by
  have hnodup : (done.map (·.1)).Nodup := by
    have hall := h.queued.functions
    rw [List.map_append] at hall
    exact hall.of_append_left
  have hsub : done.map (·.1) ⊆ List.range S.source.funcs.size := by
    intro f hf
    obtain ⟨w, hw, rfl⟩ := List.mem_map.mp hf
    exact List.mem_range.mpr (h.queued.function_lt w (List.mem_append_left _ hw))
  simpa using (hnodup.subperm hsub).length_le

/-- The loop ends because nothing waits, or because it was given too few rounds. -/
theorem rounds_lowerWaiting (n : Nat) (S : Setting) (s : State) :
    ∃ done, Rounds S s done (lowerWaiting n S s).2 ∧ ((lowerWaiting n S s).2.waiting = [] ∨ done.length = n) := by
  induction n generalizing s with
  | zero => exact ⟨[], .nil s, Or.inr rfl⟩
  | succ n ih =>
    rw [lowerWaiting, get_bind_apply]
    cases hw : s.waiting with
    | nil => exact ⟨[], .nil s, Or.inl hw⟩
    | cons w rest =>
      obtain ⟨done, hrounds, hend⟩ := ih (lowerFunction w.1 w.2 S { s with waiting := rest }).2
      exact ⟨w :: done, .cons hw hrounds, hend.imp_right (congrArg (· + 1))⟩

/-! ## The whole lowering -/

/-- All packages are declared. -/
def declarePackages : Lower Unit := do
  for pkg in (← read).packages do
    declarePackage pkg

/-- What is declared before the first body. -/
def Setting.declared (S : Setting) : State := (declarePackages S {}).2

/-- What is declared after the last body. -/
def Setting.lowered (S : Setting) : State := (lowerWaiting (S.source.funcs.size + 1) S S.declared).2

/-- What is declared in the end. -/
def Setting.finished (S : Setting) : State := (lowerAll S {}).2

/-- Every function that is ever queued gets its body, and gets it once. -/
structure LowersOnce (S : Setting) (done : List Work) : Prop where
  rounds : Rounds S S.declared done S.lowered
  /-- Whatever had its body or is waiting after some rounds is among those that have theirs in the end. -/
  queued : ∀ (before : List Work) (s : State), Rounds S S.declared before s → before ++ s.waiting <+: done
  functions : (done.map (·.1)).Nodup
  methods : (done.map (·.2)).Nodup
  /-- What comes after the bodies queues no function. -/
  drained : S.finished.waiting = []

theorem invariant_empty (S : Setting) : Invariant S [] [] (fun _ _ => False) {} where
  errors := rfl
  names n c := by simp
  size := rfl
  interfaces e he := absurd he (Array.not_mem_empty e)
  listed c d hd := by simp at hd
  settled m d hd := by simp at hd
  queued := ⟨List.nodup_nil, List.nodup_nil, nofun, nofun, nofun⟩
  ahead := List.prefix_refl _
  functions := rfl
  count := rfl

theorem invariant_declared (S : Setting) : Invariant S [] [] (fun _ _ => False) S.declared := by
  have hkeeps : Keeps S (Invariant S [] [] fun _ _ => False) declarePackages :=
    .read ((Keeps.forIn (fun pkg _ _ => (keeps_declarePackage pkg).bind fun _ => keeps_pure _) _).bind fun _ =>
      keeps_pure _)
  exact hkeeps {} (invariant_empty S)

/-- The rounds that the loop is given suffice. -/
theorem exists_rounds (S : Setting) :
    ∃ done, Rounds S S.declared done S.lowered ∧ S.lowered.waiting = [] ∧
      Invariant S done [] (fun _ _ => False) S.lowered := by
  obtain ⟨done, hrounds, hend⟩ := rounds_lowerWaiting (S.source.funcs.size + 1) S S.declared
  have hinv : Invariant S done [] (fun _ _ => False) S.lowered := (hrounds.spec (invariant_declared S)).1
  refine ⟨done, hrounds, hend.resolve_right fun hlength => ?_, hinv⟩
  have hle := hinv.length_le
  omega

/-- The invariant holds of what is checked in the end, and no function waits. -/
theorem paused_finished (h : Invariant S done [] (fun _ _ => False) S.lowered) (hdrained : S.lowered.waiting = []) :
    Paused S done [] (fun _ _ => False) S.finished := by
  have hkeeps : Keeps S (Paused S done [] fun _ _ => False) (do
      declareAllocated
      recordImplementations
      modify fun s => { s with builder := { s.builder with entries := s.inits ++ s.mains } }) := by
    refine keeps_declareAllocated.bind fun _ => keeps_recordImplementations.bind fun _ => ?_
    exact keeps_modify fun s hs => hs.congr rfl
  exact hkeeps S.lowered ⟨h, hdrained⟩

theorem Invariant.closable {front : List Work} (h : Invariant S done front (fun _ _ => False) s) :
    s.builder.Closable := fun m d hd => ⟨(h.settled m d hd).concrete, (h.settled m d hd).bound⟩

theorem lower_eq (S : Setting) : lower S = (S.finished.builder.build,
    { packages := S.packages.length, functions := S.finished.functions, stubs := S.finished.stubs
      classes := S.finished.classes.size }) := rfl

theorem lowersOnce (hrounds : Rounds S S.declared done S.lowered) (hdrained : S.lowered.waiting = [])
    (hlowered : Invariant S done [] (fun _ _ => False) S.lowered) : LowersOnce S done := by
  have hqueued := hlowered.queued
  rw [hdrained, List.append_nil] at hqueued
  refine ⟨hrounds, fun before s hbefore => ?_, hqueued.functions, hqueued.methods,
    (paused_finished hlowered hdrained).waiting⟩
  obtain ⟨after, hdone, hafter⟩ := hrounds.split hbefore hdrained
  have hinv : Invariant S before [] (fun _ _ => False) s := (hbefore.spec (invariant_declared S)).1
  have hprefix := (hafter.spec hinv).2
  rw [hdrained, List.append_nil] at hprefix
  rw [hdone]
  exact (List.prefix_append_right_inj before).mpr hprefix

/-- The builder accepts what was lowered: no name or subsignature is declared twice, all labels are bound, all
branches compare, and every method that was counted is there. -/
theorem lower_accepted (S : Setting) : ∃ p done, (lower S).1 = .ok p ∧
    (∀ m ∈ p.methods, ∀ e ∈ m.body, e.stmt.Conditional) ∧ LowersOnce S done ∧
    (lower S).2.functions = done.length ∧ (lower S).2.functions + (lower S).2.stubs = p.methods.size ∧
    (lower S).2.classes = p.classes.size := by
  simp only [lower_eq]
  obtain ⟨done, hrounds, hdrained, hlowered⟩ := exists_rounds S
  have hfinished := paused_finished hlowered hdrained
  obtain ⟨p, hp⟩ := hfinished.closable.exists_build hfinished.errors
  obtain ⟨-, hclasses, -, -, hmethods, -⟩ := Builder.build_ok hp
  refine ⟨p, done, hp, ?_, lowersOnce hrounds hdrained hlowered, hfinished.functions, ?_, ?_⟩
  · intro m hm
    rw [hmethods] at hm
    obtain ⟨d, hd, rfl⟩ := Array.mem_map.mp hm
    obtain ⟨k, hk⟩ := Array.getElem?_of_mem hd
    exact (hfinished.settled k d hk).body
  · have hcount := hfinished.count
    rw [hfinished.waiting, List.length_nil, Nat.add_zero] at hcount
    rw [hmethods, Array.size_map]
    exact hcount.symm
  · rw [hclasses]
    exact hfinished.size

end WholeProgram.Lowering
