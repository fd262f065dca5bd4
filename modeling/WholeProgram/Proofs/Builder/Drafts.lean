import Mathlib.Data.List.Basic
import WholeProgram.Program.Builder

/-!
# Labels, and the end of the building

A label that waits is about to be bound to the next statement, and one that does not wait is bound to the
statement that it was bound to last. `Draft.place?` looks at both in one way, so that adding a statement
changes nothing (`Draft.place?_push`).

* `Draft.close` — a draft with a final `nop` for the labels that still wait;
* `Builder.build_ok` — a program that is built has the closed drafts as its methods, and all labels of
  these are bound.
-/

namespace WholeProgram

namespace Draft

variable {d : Draft}

/-- The statement that a label stands for: the next one if the label waits, else the one that it was bound
to. -/
def place? (d : Draft) (l : Label) : Option Nat :=
  if l ∈ d.pending then some d.code.size else (d.labels[l]?).join

/-- Labels that wait are labels of the draft. -/
def Waits (d : Draft) : Prop := ∀ l ∈ d.pending, l < d.labels.size

/-- Binding the waiting labels sets these and no others. -/
theorem getElem?_bindAll (pending : List Label) (labels : Array (Option Nat)) (k l : Nat) :
    (pending.foldl (fun ls a => ls.setIfInBounds a (some k)) labels)[l]? =
      if l ∈ pending ∧ l < labels.size then some (some k) else labels[l]? := by
  induction pending generalizing labels with
  | nil => simp
  | cons a pending ih =>
    rw [List.foldl_cons, ih, Array.size_setIfInBounds, Array.getElem?_setIfInBounds]
    by_cases hl : l < labels.size
    · by_cases ha : a = l
      · subst ha
        simp [hl]
      · simp [hl, ha, Ne.symm ha]
    · by_cases ha : a = l <;> simp [hl, ha]

theorem size_bindAll (pending : List Label) (labels : Array (Option Nat)) (k : Nat) :
    (pending.foldl (fun ls a => ls.setIfInBounds a (some k)) labels).size = labels.size := by
  induction pending generalizing labels with
  | nil => rfl
  | cons a pending ih => rw [List.foldl_cons, ih, Array.size_setIfInBounds]

@[simp]
theorem size_labels_push (s : Stmt Label) : (d.push s).labels.size = d.labels.size :=
  size_bindAll _ _ _

@[simp]
theorem size_code_push (s : Stmt Label) : (d.push s).code.size = d.code.size + 1 := Array.size_push _

theorem waits_push (s : Stmt Label) : (d.push s).Waits := nofun

/-- A statement that is added moves no label of the draft. -/
theorem place?_push {l : Label} (h : l ∈ d.pending → l < d.labels.size) (s : Stmt Label) :
    (d.push s).place? l = d.place? l := by
  unfold place?
  simp only [push, List.not_mem_nil, if_false]
  rw [getElem?_bindAll]
  by_cases hl : l ∈ d.pending
  · simp [hl, h hl]
  · simp [hl]

/-- The draft at the end of the building. -/
def close (d : Draft) : Draft := if d.pending.isEmpty then d else d.push .nop

theorem header_close (d : Draft) : d.close.header = d.header := by
  unfold close
  split <;> rfl

/-- Closing a draft again changes nothing. -/
theorem close_close (d : Draft) : d.close.close = d.close := by
  by_cases h : d.pending.isEmpty = true
  · have hclose : d.close = d := if_pos h
    rw [hclose, hclose]
  · have hclose : d.close = d.push .nop := if_neg h
    rw [hclose]
    rfl

/-- All labels are bound. -/
def Bound (d : Draft) : Prop := ∀ l < d.labels.size, (d.labels[l]?).join ≠ none

theorem pending_close : d.close.pending = [] := by
  unfold close
  split
  · rename_i h
    exact List.isEmpty_iff.mp h
  · rfl

theorem size_labels_close : d.close.labels.size = d.labels.size := by
  unfold close
  split
  · rfl
  · exact size_labels_push _

theorem place?_close {l : Label} (h : l ∈ d.pending → l < d.labels.size) : d.close.place? l = d.place? l := by
  unfold close
  split
  · rfl
  · exact place?_push h _

/-- In a closed draft a label is bound to what it stands for. -/
theorem labels_close {l : Label} (h : l ∈ d.pending → l < d.labels.size) :
    (d.close.labels[l]?).join = d.place? l := by
  rw [← place?_close h, place?, pending_close, if_neg List.not_mem_nil]

end Draft

namespace Builder

variable {b b' : Builder}

/-- Faults that a fold adds change nothing else, and where there are none in the end, there were none
before and no member of the list was at fault. -/
theorem foldl_fail {α : Type} (as : List α) (P : α → Prop) [DecidablePred P] (e : Builder → α → BuildError)
    (b : Builder) :
    ∃ errors, as.foldl (fun b a => if P a then b.fail (e b a) else b) b = { b with errors } ∧
      (errors = #[] → b.errors = #[] ∧ ∀ a ∈ as, ¬ P a) := by
  induction as generalizing b with
  | nil => exact ⟨b.errors, rfl, fun h => ⟨h, nofun⟩⟩
  | cons a as ih =>
    rw [List.foldl_cons]
    by_cases ha : P a
    · obtain ⟨errors, heq, hnone⟩ := ih (b.fail (e b a))
      rw [if_pos ha]
      refine ⟨errors, heq, fun h => ?_⟩
      have := (hnone h).1
      simp [fail] at this
    · obtain ⟨errors, heq, hnone⟩ := ih b
      rw [if_neg ha]
      refine ⟨errors, heq, fun h => ⟨(hnone h).1, ?_⟩⟩
      rintro c (- | ⟨_, hc⟩)
      · exact ha
      · exact (hnone h).2 c hc

/-- Adding a statement to an abstract method is a fault, and every statement is appended. -/
theorem add_eq (b : Builder) (m : MethodId) (s : Stmt Label) :
    ∃ errors, b.add m s = { b.append m s with errors } ∧ (errors = #[] → b.errors = #[]) := by
  unfold add
  dsimp only
  by_cases hm : (b.header m).isAbstract = true
  · rw [if_pos hm]
    exact ⟨_, rfl, fun h => by simp [fail] at h⟩
  · rw [if_neg hm]
    exact ⟨_, rfl, id⟩

/-- Nothing changes for a draft without waiting labels. -/
theorem modify_close_eq (b : Builder) (m : MethodId)
    (h : (b.drafts[m]?.map (·.pending.isEmpty)).getD true = true) :
    b.drafts.modify m Draft.close = b.drafts := by
  refine Array.ext_getElem? fun k => ?_
  rw [Array.getElem?_modify]
  split
  · rename_i hk
    subst hk
    cases hd : b.drafts[m]? with
    | none => rfl
    | some d =>
      have hempty : d.pending.isEmpty = true := by simpa [hd] using h
      simp [Draft.close, hempty]
  · rfl

/-- The waiting labels of a body get a final `nop`. -/
theorem close_eq (b : Builder) (m : MethodId) :
    ∃ errors index, (if (b.drafts[m]?.map (·.pending.isEmpty)).getD true then b else b.add m .nop) =
      { b with errors, index, drafts := b.drafts.modify m Draft.close } ∧ (errors = #[] → b.errors = #[]) := by
  split
  · rename_i hempty
    exact ⟨b.errors, b.index, by rw [modify_close_eq b m hempty], id⟩
  · rename_i hwaits
    obtain ⟨errors, heq, hnone⟩ := add_eq b m .nop
    have hdrafts : b.drafts.modify m (Draft.push · .nop) = b.drafts.modify m Draft.close := by
      refine Array.ext_getElem? fun k => ?_
      rw [Array.getElem?_modify, Array.getElem?_modify]
      split
      · rename_i hk
        subst hk
        cases hd : b.drafts[m]? with
        | none => rfl
        | some d =>
          have hsome : d.pending.isEmpty = false := by simpa [hd] using hwaits
          simp [Draft.close, hsome]
      · rfl
    exact ⟨errors, (b.append m .nop).index, by simp only [heq, append, hdrafts], hnone⟩

/-- The end of a body closes its draft; without faults its labels are bound. -/
theorem finish_eq (b : Builder) (m : MethodId) :
    ∃ errors index, b.finish m = { b with errors, index, drafts := b.drafts.modify m Draft.close } ∧
      (errors = #[] → b.errors = #[] ∧ ∀ d, b.drafts[m]? = some d → d.close.Bound) := by
  obtain ⟨errors₁, index₁, heq₁, hnone₁⟩ := close_eq b m
  unfold finish
  simp only [heq₁]
  generalize hlabels : ((b.drafts.modify m Draft.close)[m]?.map (·.labels)).getD #[] = labels
  obtain ⟨errors, heq, hnone⟩ := foldl_fail (List.range labels.size)
    (fun l => (labels[l]?.join).isNone) (fun b l => .unboundLabel (b.signature m) l)
    { b with errors := errors₁, index := index₁, drafts := b.drafts.modify m Draft.close }
  refine ⟨errors, _, by rw [heq, sealBody], fun h => ⟨hnone₁ (hnone h).1, fun d hd l hl => ?_⟩⟩
  obtain rfl : d.close.labels = labels := by simpa [Array.getElem?_modify, hd] using hlabels
  exact fun hunbound => (hnone h).2 l (List.mem_range.mpr hl) (by simp [hunbound])

/-- The ends of the bodies, one after the other, close the first drafts. -/
theorem foldl_finish_eq (b : Builder) (n : Nat) :
    ∃ errors drafts index, (List.range n).foldl finish b = { b with errors, drafts, index } ∧
      drafts.size = b.drafts.size ∧
      (∀ m : Nat, drafts[m]? = if m < n then (b.drafts[m]?).map Draft.close else b.drafts[m]?) ∧
      (errors = #[] → b.errors = #[] ∧
        ∀ m < n, ∀ d, b.drafts[m]? = some d → d.close.Bound) := by
  induction n with
  | zero => exact ⟨b.errors, b.drafts, b.index, rfl, rfl, fun _ => rfl, fun h => ⟨h, nofun⟩⟩
  | succ n ih =>
    obtain ⟨errors, drafts, index, heq, hsize, hdrafts, hnone⟩ := ih
    rw [List.range_succ, List.foldl_append, heq]
    obtain ⟨errors', index', heq', hnone'⟩ := finish_eq { b with errors, drafts, index } n
    have hn : drafts[n]? = b.drafts[n]? := by rw [hdrafts, if_neg (Nat.lt_irrefl n)]
    refine ⟨errors', drafts.modify n Draft.close, index', heq', by simp [hsize], fun m => ?_, fun h => ?_⟩
    · rw [Array.getElem?_modify]
      by_cases hm : n = m
      · subst hm
        rw [if_pos rfl, if_pos (Nat.lt_succ_self n), hn]
      · rw [if_neg hm, hdrafts]
        by_cases hlt : m < n
        · rw [if_pos hlt, if_pos (by omega)]
        · rw [if_neg hlt, if_neg (by omega)]
    · obtain ⟨hold, hbound⟩ := hnone' h
      refine ⟨(hnone hold).1, fun m hm d hd => ?_⟩
      rcases Nat.lt_succ_iff_lt_or_eq.mp hm with hlt | rfl
      · exact (hnone hold).2 m hlt d hd
      · exact hbound d (hn.trans hd)

/-- Statements of methods that are not abstract are no faults. -/
theorem errors_add {m : MethodId} (h : (b.header m).isAbstract = false) (s : Stmt Label) :
    (b.add m s).errors = b.errors := by
  unfold add
  dsimp only
  rw [if_neg (by simp [h]), append]

/-- The end of a body whose labels are bound is no fault. -/
theorem errors_finish {m : MethodId} (hconcrete : (b.header m).isAbstract = false)
    (hbound : ∀ d, b.drafts[m]? = some d → d.close.Bound) : (b.finish m).errors = b.errors := by
  obtain ⟨errors, index, heq, -⟩ := close_eq b m
  have herrors : errors = b.errors := by
    have hclose := congrArg Builder.errors heq
    split at hclose
    · exact hclose.symm
    · exact hclose.symm.trans (errors_add hconcrete .nop)
  unfold finish
  simp only [heq]
  generalize hlabels : ((b.drafts.modify m Draft.close)[m]?.map (·.labels)).getD #[] = labels
  have hlabel (l : Nat) (hl : l ∈ List.range labels.size) : (labels[l]?.join).isNone = false := by
    cases hd : b.drafts[m]? with
    | none =>
      obtain rfl : #[] = labels := by simpa [Array.getElem?_modify, hd] using hlabels
      cases List.mem_range.mp hl
    | some d =>
      obtain rfl : d.close.labels = labels := by simpa [Array.getElem?_modify, hd] using hlabels
      exact Option.isNone_eq_false_iff.mpr (Option.isSome_iff_ne_none.mpr (hbound d hd l (List.mem_range.mp hl)))
  refine List.foldlRecOn (List.range labels.size) _ (motive := fun b' : Builder => b'.errors = b.errors) herrors
    fun b' hb' l hl => ?_
  rw [if_neg (by simp [hlabel l hl])]
  exact hb'

/-- No method is abstract, and their labels are bound when they are closed. -/
def Closable (b : Builder) : Prop :=
  ∀ (m : MethodId) (d : Draft), b.drafts[m]? = some d → d.header.isAbstract = false ∧ d.close.Bound

theorem Closable.finish (h : b.Closable) (m : MethodId) : (b.finish m).errors = b.errors ∧ (b.finish m).Closable := by
  have hconcrete : (b.header m).isAbstract = false := by
    unfold header
    cases hd : b.drafts[m]? with
    | none => rfl
    | some d => exact (h m d hd).1
  refine ⟨errors_finish hconcrete fun d hd => (h m d hd).2, fun k d' hd' => ?_⟩
  obtain ⟨errors, index, heq, -⟩ := finish_eq b m
  rw [heq] at hd'
  rw [Array.getElem?_modify] at hd'
  split at hd'
  · obtain ⟨d, hd, rfl⟩ := Option.map_eq_some_iff.mp hd'
    rw [Draft.header_close, Draft.close_close]
    exact h k d hd
  · exact h k d' hd'

/-- A description without faults is that of a program if its methods can be closed. -/
theorem Closable.exists_build (h : b.Closable) (hok : b.errors = #[]) : ∃ p, b.build = .ok p := by
  have hall (ms : List MethodId) : (ms.foldl Builder.finish b).errors = #[] ∧ (ms.foldl Builder.finish b).Closable := by
    refine List.foldlRecOn ms Builder.finish (motive := fun b' : Builder => b'.errors = #[] ∧ b'.Closable) ⟨hok, h⟩
      fun b' hb' m _ => ?_
    obtain ⟨herrors, hclosable⟩ := hb'.2.finish m
    exact ⟨herrors.trans hb'.1, hclosable⟩
  unfold build
  dsimp only
  rw [(hall _).1, if_pos (by rfl)]
  exact ⟨_, rfl⟩

/-- A program that is built has the closed drafts as its methods. There was no fault, and the labels of
the closed drafts are bound. -/
theorem build_ok {p : Program} (h : b.build = .ok p) :
    b.errors = #[] ∧ p.classes = b.classes ∧ p.fields = b.fields ∧ p.vars = b.vars ∧
      p.methods = b.drafts.map (fun d => d.close.toMethod) ∧
      ∀ (m : MethodId) (d : Draft), b.drafts[m]? = some d → d.close.Bound := by
  obtain ⟨errors, drafts, index, heq, hsize, hdrafts, hnone⟩ := foldl_finish_eq b b.drafts.size
  unfold build at h
  simp only [heq] at h
  split at h
  · rename_i hempty
    obtain ⟨hold, hbound⟩ := hnone (by simpa using hempty)
    obtain rfl := Except.ok.inj h
    refine ⟨hold, rfl, rfl, rfl, ?_, fun m d hd => ?_⟩
    · refine Array.ext_getElem? fun m => ?_
      rw [Array.getElem?_map, Array.getElem?_map, hdrafts]
      split
      · rw [Option.map_map]
        rfl
      · rename_i hm
        rw [Array.getElem?_eq_none (Nat.le_of_not_lt hm)]
        rfl
    · exact hbound m (Array.getElem?_eq_some_iff.mp hd).1 d hd
  · cases h

end Builder

end WholeProgram
