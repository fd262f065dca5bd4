import Mathlib.Algebra.BigOperators.Group.Finset.Piecewise
import Mathlib.Algebra.BigOperators.Ring.Finset
import Mathlib.Algebra.Order.BigOperators.Group.Finset
import Mathlib.Data.Set.Basic
import Mathlib.Logic.Relation
import WholeProgram.Dataflow.System

/-!
# The worklist solver finds least solutions

A solution of a system gives every boundary node the output it starts with, and every other node the
input and the output that its equations ask for. `Turn` is one visit of some waiting node, whichever;
the solver takes its turns first in first out (`loop_turns`). What all its visits keep holds where it ends
(`loop_keeps`).

* `Lawful` — the facts of a node depend monotonically on the outputs of the nodes that wake it, and on
  the inputs of those that pass on what they are given;
* `Inv.turn`, `Below.turn` — facts only climb, what does not wait is settled, and all facts stay
  below every bound on the solutions;
* `Outcome.solves`, `Outcome.below`, `Outcome.unique` — where nothing waits there is the least
  solution, in whatever order the nodes were visited;
* `potential_turn` — where chains of facts are short, every turn takes something off a potential, so
  that turns lead to an outcome (`exists_outcome`) and the solver ends within it (`loop_halts`).
-/

namespace WholeProgram

variable {F ε : Type}

/-! ## Reading and writing facts -/

namespace Facts

variable [Inhabited F] {s t : Facts F} {n k : Nat} {f : F}

theorem output_eq_default (h : s.outs.size ≤ k) : s.output k = default := by
  simp [output, Array.getD_eq_getD_getElem?, Array.getElem?_eq_none h]

theorem input_eq_default (h : s.ins.size ≤ k) : s.input k = default := by
  simp [input, Array.getD_eq_getD_getElem?, Array.getElem?_eq_none h]

theorem output_setOutput_self (h : n < s.outs.size) : (s.setOutput n f).output n = f := by
  simp [output, setOutput, Array.getD_eq_getD_getElem?, h]

theorem output_setOutput_of_ne (h : k ≠ n) : (s.setOutput n f).output k = s.output k := by
  simp [output, setOutput, Array.getD_eq_getD_getElem?, Ne.symm h]

theorem input_setInput_self (h : n < s.ins.size) : (s.setInput n f).input n = f := by
  simp [input, setInput, Array.getD_eq_getD_getElem?, h]

theorem input_setInput_of_ne (h : k ≠ n) : (s.setInput n f).input k = s.input k := by
  simp [input, setInput, Array.getD_eq_getD_getElem?, Ne.symm h]

theorem input_setInput_of_ge (h : s.ins.size ≤ n) : (s.setInput n f).input k = s.input k := by
  rw [setInput, Array.setIfInBounds_eq_of_size_le h]

/-- Writing the input that is there changes no input. -/
theorem input_setInput_input : (s.setInput n (s.input n)).input k = s.input k := by
  by_cases hn : n < s.ins.size
  · by_cases hk : k = n
    · subst hk
      exact input_setInput_self hn
    · exact input_setInput_of_ne hk
  · exact input_setInput_of_ge (Nat.le_of_not_lt hn)

theorem input_setInput_mono [Preorder F] {g : F} (hsize : s.ins.size = t.ins.size)
    (h : ∀ k, s.input k ≤ t.input k) (hfg : f ≤ g) (k : Nat) :
    (s.setInput n f).input k ≤ (t.setInput n g).input k := by
  by_cases hn : n < s.ins.size
  · by_cases hk : k = n
    · subst hk
      rw [input_setInput_self hn, input_setInput_self (hsize ▸ hn)]
      exact hfg
    · rw [input_setInput_of_ne hk, input_setInput_of_ne hk]
      exact h k
  · have hge := Nat.le_of_not_lt hn
    rw [input_setInput_of_ge hge, input_setInput_of_ge (hsize ▸ hge)]
    exact h k

/-- Facts of the same size that read the same are equal. -/
theorem ext_of_size (hins : s.ins.size = t.ins.size) (houts : s.outs.size = t.outs.size)
    (hin : ∀ n < s.ins.size, s.input n = t.input n)
    (hout : ∀ n < s.outs.size, s.output n = t.output n) : s = t := by
  obtain ⟨ins, outs⟩ := s
  obtain ⟨ins', outs'⟩ := t
  congr 1
  · refine Array.ext hins fun n hn hn' => ?_
    simpa [input, Array.getD_eq_getD_getElem?, hn, hn'] using hin n hn
  · refine Array.ext houts fun n hn hn' => ?_
    simpa [output, Array.getD_eq_getD_getElem?, hn, hn'] using hout n hn

/-- The facts of a table of inputs and a table of outputs. -/
def ofFns (size : Nat) (ins outs : Nat → F) : Facts F where
  ins := (Array.range size).map ins
  outs := (Array.range size).map outs

theorem input_ofFns {size : Nat} (ins outs : Nat → F) (h : n < size) :
    (ofFns size ins outs).input n = ins n := by
  simp [ofFns, input, Array.getD_eq_getD_getElem?, h]

theorem output_ofFns {size : Nat} (ins outs : Nat → F) (h : n < size) :
    (ofFns size ins outs).output n = outs n := by
  simp [ofFns, output, Array.getD_eq_getD_getElem?, h]

end Facts

namespace System

section

variable [Inhabited F]

theorem input_begin (S : System F ε) {n : Nat} (h : n < S.size) : S.begin.facts.input n = S.initial := by
  simp [begin, Facts.input, Array.getD_eq_getD_getElem?, h]

theorem output_begin (S : System F ε) {n : Nat} (h : n < S.size) : S.begin.facts.output n = S.start n := by
  simp [begin, Facts.output, Array.getD_eq_getD_getElem?, h]

omit [Inhabited F] in
theorem mem_waiting_begin (S : System F ε) {n : Nat} :
    n ∈ S.begin.waiting.toList ↔ n < S.size ∧ S.isBoundary n = false := by
  simp [begin, List.mem_filter]

/-! ## Solutions -/

/-- The facts satisfy the equations of the system. -/
structure Solves (S : System F ε) (s : Facts F) : Prop where
  boundary : ∀ n < S.size, S.isBoundary n = true → s.output n = S.start n
  input : ∀ n < S.size, S.isBoundary n = false → s.input n = S.input s n
  output : ∀ n < S.size, S.isBoundary n = false → s.output n = S.transfer s n (s.input n)

/-- The facts are no further down than the equations of the system ask for. -/
structure Bounds [LE F] (S : System F ε) (s : Facts F) : Prop where
  boundary : ∀ n < S.size, S.isBoundary n = true → S.start n ≤ s.output n
  input : ∀ n < S.size, S.isBoundary n = false → S.input s n ≤ s.input n
  output : ∀ n < S.size, S.isBoundary n = false → S.transfer s n (s.input n) ≤ s.output n

theorem Solves.bounds [Preorder F] {S : System F ε} {s : Facts F} (h : S.Solves s) : S.Bounds s where
  boundary n hn hb := (h.boundary n hn hb).ge
  input n hn hb := (h.input n hn hb).ge
  output n hn hb := (h.output n hn hb).ge

/-- The node passes on what it is given. -/
def Echoes (S : System F ε) (k : Nat) : Prop :=
  S.isBoundary k = false ∧ ∀ s f, S.transfer s k f = f

/-- The facts of a node depend monotonically on the outputs of the nodes that wake it, on the inputs of
those of them that pass on what they are given, and on nothing else. -/
structure Lawful [PartialOrder F] (S : System F ε) : Prop where
  initial_le : ∀ f, S.initial ≤ f
  default_eq : default = S.initial
  start_eq : ∀ n, S.isBoundary n = false → S.start n = S.initial
  input_mono : ∀ s t n, (∀ k, s.output k ≤ t.output k) → S.input s n ≤ S.input t n
  input_congr : ∀ s t n, n < S.size →
    (∀ k, (k < S.size → n ∈ S.dependents k) → s.output k = t.output k) →
    S.input s n = S.input t n
  transfer_mono : ∀ s t n f g, (∀ k, s.input k ≤ t.input k) → f ≤ g →
    S.transfer s n f ≤ S.transfer t n g
  transfer_congr : ∀ s t n f, n < S.size →
    (∀ k < S.size, n ∈ S.dependents k → S.Echoes k → s.input k = t.input k) →
    S.transfer s n f = S.transfer t n f
  dependents_eq_nil : ∀ n k, S.size ≤ n → n ∈ S.dependents k → S.dependents n = []

/-! ## One visit -/

/-- The output that a visit of a node finds. -/
def result (S : System F ε) (s : Facts F) (n : Nat) : F :=
  S.transfer (s.setInput n (S.input s n)) n (S.input s n)

/-- The facts after a visit of a node. -/
def revise (S : System F ε) (s : Facts F) (n : Nat) : Facts F :=
  (s.setInput n (S.input s n)).setOutput n (S.result s n)

variable {S : System F ε} {s : Facts F} {n k : Nat}

omit [Inhabited F] in
@[simp]
theorem size_ins_revise : (S.revise s n).ins.size = s.ins.size := by
  simp [revise, Facts.setInput, Facts.setOutput]

omit [Inhabited F] in
@[simp]
theorem size_outs_revise : (S.revise s n).outs.size = s.outs.size := by
  simp [revise, Facts.setInput, Facts.setOutput]

theorem input_revise_self (hins : s.ins.size = S.size) (hn : n < S.size) :
    (S.revise s n).input n = S.input s n :=
  Facts.input_setInput_self (hins ▸ hn)

theorem input_revise_of_ne (h : k ≠ n) : (S.revise s n).input k = s.input k :=
  Facts.input_setInput_of_ne h

theorem output_revise_self (houts : s.outs.size = S.size) (hn : n < S.size) :
    (S.revise s n).output n = S.result s n :=
  Facts.output_setOutput_self (houts ▸ hn)

theorem output_revise_of_ne (h : k ≠ n) : (S.revise s n).output k = s.output k :=
  Facts.output_setOutput_of_ne h

/-- A visit beyond the last node changes no output. -/
theorem output_revise_of_ge (houts : s.outs.size = S.size) (hn : S.size ≤ n) (k : Nat) :
    (S.revise s n).output k = s.output k := by
  by_cases hk : k = n
  · subst hk
    rw [Facts.output_eq_default (s := s) (houts ▸ hn), Facts.output_eq_default]
    simpa [houts] using hn
  · exact output_revise_of_ne hk

namespace Lawful

variable [PartialOrder F] {t : Facts F}

/-- Where the input is what the equation asks for, so is the output. -/
theorem result_eq (hS : S.Lawful) (hn : n < S.size) (h : s.input n = S.input s n) :
    S.result s n = S.transfer s n (S.input s n) := by
  refine hS.transfer_congr _ _ n _ hn fun k _ _ _ => ?_
  rw [← h]
  exact Facts.input_setInput_input

theorem result_mono (hS : S.Lawful) (hsize : s.ins.size = t.ins.size)
    (hin : ∀ k, s.input k ≤ t.input k) (hout : ∀ k, s.output k ≤ t.output k) (n : Nat) :
    S.result s n ≤ S.result t n := by
  have hinput := hS.input_mono s t n hout
  exact hS.transfer_mono _ _ _ _ _ (Facts.input_setInput_mono hsize hin hinput) hinput

end Lawful

end

/-! ## Turns -/

variable [Inhabited F] [DecidableEq F]

/-- The nodes that a visit makes wait. -/
def woken (S : System F ε) (s : Facts F) (n : Nat) : List Nat :=
  if S.result s n = s.output n then [] else (S.dependents n).filter fun d => !S.isBoundary d

omit [DecidableEq F] in
/-- A visit that finds the output that is there changes no output. -/
theorem output_revise_of_same {S : System F ε} {s : Facts F} {n : Nat} (houts : s.outs.size = S.size)
    (hsame : S.result s n = s.output n) (k : Nat) : (S.revise s n).output k = s.output k := by
  by_cases hlt : n < S.size
  · by_cases hkn : k = n
    · subst hkn
      rw [output_revise_self houts hlt, hsame]
    · exact output_revise_of_ne hkn
  · exact output_revise_of_ge houts (Nat.le_of_not_lt hlt) k

/-- A visit of one of the waiting nodes, whichever. -/
inductive Turn (S : System F ε) : Facts F × List Nat → Facts F × List Nat → Prop
  | visit {s : Facts F} {waiting rest : List Nat} {n : Nat} : waiting.Perm (n :: rest) →
      Turn S (s, waiting) (S.revise s n, rest ++ S.woken s n)

/-- Facts that turns may end with, whatever the order in which the nodes wait and are visited. -/
def Outcome (S : System F ε) (s : Facts F) : Prop :=
  ∃ waiting, waiting.Perm S.begin.waiting.toList ∧
    Relation.ReflTransGen S.Turn (S.begin.facts, waiting) (s, [])

theorem visit_eq (S : System F ε) (s : SolverState F) (n : Nat)
    (h : S.fault n (S.input s.facts n) = none) :
    ∃ t, S.visit s n = (t, none) ∧ t.facts = S.revise s.facts n ∧
      t.waiting.toList = s.waiting.toList ++ S.woken s.facts n ∧ t.iterations = s.iterations + 1 := by
  unfold visit
  simp only [h]
  refine ⟨_, rfl, rfl, ?_, rfl⟩
  rw [Queue.toList_pushAll]
  congr 1
  show (if decide (S.result s.facts n ≠ s.facts.output n) = true then _ else _) = _
  unfold woken
  by_cases hsame : S.result s.facts n = s.facts.output n
  · simp [hsame]
  · simp [hsame]

/-- What every visit without a fault keeps, of the facts, the waiting nodes and the number of visits, holds
where a loop ends with a solution. -/
theorem loop_keeps {S : System F ε} {P : Facts F × List Nat → Nat → Prop} {limit : Int} {fuel : Nat}
    {s t : SolverState F}
    (hvisit : ∀ (f : Facts F) (n : Nat) (rest : List Nat) (k : Nat), S.fault n (S.input f n) = none →
      P (f, n :: rest) k → P (S.revise f n, rest ++ S.woken f n) (k + 1))
    (hs : P (s.facts, s.waiting.toList) s.iterations) (h : S.loop limit fuel s = (t, none)) :
    P (t.facts, []) t.iterations := by
  induction fuel generalizing s with
  | zero =>
    unfold loop at h
    split at h
    · rename_i hempty
      obtain rfl : s = t := congrArg Prod.fst h
      have hnil : s.waiting.toList = [] := by
        apply List.eq_nil_of_length_eq_zero
        rw [Queue.length_toList]
        simpa [Queue.isEmpty] using hempty
      rwa [hnil] at hs
    · cases h
  | succ fuel ih =>
    unfold loop at h
    cases hpop : s.waiting.pop? with
    | none =>
      rw [hpop] at h
      obtain rfl : s = t := congrArg Prod.fst h
      rwa [(Queue.pop?_eq_none_iff _).mp hpop] at hs
    | some x =>
      obtain ⟨n, rest⟩ := x
      simp only [hpop] at h
      split at h
      · cases h
      · cases hfault : S.fault n (S.input s.facts n) with
        | some e =>
          simp only [visit, hfault] at h
          cases h
        | none =>
          obtain ⟨u, hu, hfacts, hlist, hcount⟩ := S.visit_eq { s with waiting := rest } n hfault
          rw [hu] at h
          refine ih ?_ h
          rw [hfacts, hlist, hcount]
          refine hvisit _ _ _ _ hfault ?_
          rwa [← Queue.toList_pop? _ _ _ hpop]

/-- A loop that ends with a solution took turns until nothing waited. -/
theorem loop_turns {S : System F ε} {limit : Int} {fuel : Nat} {s t : SolverState F}
    (h : S.loop limit fuel s = (t, none)) :
    Relation.ReflTransGen S.Turn (s.facts, s.waiting.toList) (t.facts, []) :=
  loop_keeps (P := fun x _ => Relation.ReflTransGen S.Turn (s.facts, s.waiting.toList) x)
    (fun _ _ _ _ _ hturns => hturns.tail (.visit (List.Perm.refl _))) .refl h

/-- What the solver ends with is an outcome. -/
theorem outcome_of_solve {S : System F ε} {limit : Int} {t : SolverState F}
    (h : S.solve limit = (t, none)) : S.Outcome t.facts :=
  ⟨_, List.Perm.refl _, loop_turns h⟩

/-! ## What every turn keeps -/

variable [PartialOrder F] {S : System F ε} {s t : Facts F} {x y : Facts F × List Nat}
  {waiting : List Nat} {n k : Nat}

/-- Facts are no further up than the equations ask for, and a node that does not wait has the facts
they ask for. A node that passes on what it is given has one fact on both sides. Boundary nodes never
wait and have the facts they start with. -/
structure Inv (S : System F ε) (x : Facts F × List Nat) : Prop where
  size_ins : x.1.ins.size = S.size
  size_outs : x.1.outs.size = S.size
  waiting : ∀ n ∈ x.2, S.isBoundary n = false ∧ (S.size ≤ n → ∃ k, n ∈ S.dependents k)
  boundary : ∀ n < S.size, S.isBoundary n = true → x.1.input n = S.initial ∧ x.1.output n = S.start n
  echoed : ∀ n < S.size, S.Echoes n → x.1.output n = x.1.input n
  climbing : ∀ n < S.size, S.isBoundary n = false → x.1.input n ≤ S.input x.1 n
  ascending : ∀ n < S.size, S.isBoundary n = false → x.1.output n ≤ S.result x.1 n
  settled : ∀ n < S.size, S.isBoundary n = false → n ∉ x.2 →
    x.1.input n = S.input x.1 n ∧ x.1.output n = S.result x.1 n

omit [DecidableEq F] in
/-- The state before the first turn, with the nodes waiting in any order. -/
theorem inv_begin (hS : S.Lawful) (h : waiting.Perm S.begin.waiting.toList) :
    S.Inv (S.begin.facts, waiting) where
  size_ins := by simp [begin]
  size_outs := by simp [begin]
  waiting n hn := by
    obtain ⟨hlt, hb⟩ := S.mem_waiting_begin.mp (h.mem_iff.mp hn)
    exact ⟨hb, fun hge => absurd hlt (Nat.not_lt.mpr hge)⟩
  boundary n hn _ := ⟨S.input_begin hn, S.output_begin hn⟩
  echoed n hn hecho := by
    rw [S.output_begin hn, S.input_begin hn, hS.start_eq n hecho.1]
  climbing n hn _ := by
    rw [S.input_begin hn]
    exact hS.initial_le _
  ascending n hn hb := by
    rw [S.output_begin hn, hS.start_eq n hb]
    exact hS.initial_le _
  settled n hn hb hnot := absurd (h.mem_iff.mpr (S.mem_waiting_begin.mpr ⟨hn, hb⟩)) hnot

omit [DecidableEq F] in
/-- Outputs only climb. -/
theorem Inv.output_le_revise (h : S.Inv (s, waiting)) (hn : S.isBoundary n = false) (k : Nat) :
    s.output k ≤ (S.revise s n).output k := by
  by_cases hlt : n < S.size
  · by_cases hk : k = n
    · subst hk
      rw [output_revise_self h.size_outs hlt]
      exact h.ascending k hlt hn
    · rw [output_revise_of_ne hk]
  · rw [output_revise_of_ge h.size_outs (Nat.le_of_not_lt hlt)]

omit [DecidableEq F] in
/-- Inputs only climb. -/
theorem Inv.input_le_revise (h : S.Inv (s, waiting)) (hn : S.isBoundary n = false) (k : Nat) :
    s.input k ≤ (S.revise s n).input k := by
  by_cases hk : k = n
  · subst hk
    by_cases hlt : k < S.size
    · rw [input_revise_self h.size_ins hlt]
      exact h.climbing k hlt hn
    · exact (Facts.input_setInput_of_ge (h.size_ins.trans_le (Nat.le_of_not_lt hlt))).ge
  · rw [input_revise_of_ne hk]

omit [PartialOrder F] in
/-- A node that depends on the visited one is woken, or the output there does not change. -/
theorem result_eq_of_not_woken (hb : S.isBoundary k = false) (hdep : k ∈ S.dependents n)
    (hwoken : k ∉ S.woken s n) : S.result s n = s.output n := by
  by_contra hne
  refine hwoken ?_
  rw [woken, if_neg hne]
  exact List.mem_filter.mpr ⟨hdep, by simp [hb]⟩

/-- A node that a visit does not wake has the same input after it. -/
theorem Inv.input_revise (hS : S.Lawful) (h : S.Inv (s, waiting)) (hk : k < S.size)
    (hb : S.isBoundary k = false) (hwoken : k ∉ S.woken s n) :
    S.input (S.revise s n) k = S.input s k := by
  refine hS.input_congr _ _ k hk fun j hj => ?_
  by_cases hjn : j = n
  · subst hjn
    by_cases hlt : j < S.size
    · -- the node depends on the visited one, so the output there did not change
      rw [output_revise_self h.size_outs hlt]
      exact result_eq_of_not_woken hb (hj hlt) hwoken
    · exact output_revise_of_ge h.size_outs (Nat.le_of_not_lt hlt) j
  · exact output_revise_of_ne hjn

/-- A node that a visit does not wake would have the same output after it. -/
theorem Inv.result_revise (hS : S.Lawful) (h : S.Inv (s, waiting)) (hk : k < S.size)
    (hb : S.isBoundary k = false) (hwoken : k ∉ S.woken s n) :
    S.result (S.revise s n) k = S.result s k := by
  unfold result
  rw [h.input_revise hS hk hb hwoken]
  refine hS.transfer_congr _ _ k _ hk fun j hj hdep hecho => ?_
  by_cases hjk : j = k
  · subst hjk
    have hlt : j < s.ins.size := h.size_ins ▸ hj
    rw [Facts.input_setInput_self hlt, Facts.input_setInput_self (by rwa [size_ins_revise])]
  · rw [Facts.input_setInput_of_ne hjk, Facts.input_setInput_of_ne hjk]
    by_cases hjn : j = n
    · -- a new input there would be a new output, and wake the node
      subst hjn
      calc (S.revise s j).input j = S.input s j := input_revise_self h.size_ins hj
        _ = S.result s j := (hecho.2 _ _).symm
        _ = s.output j := result_eq_of_not_woken hb hdep hwoken
        _ = s.input j := h.echoed j hj hecho
    · exact input_revise_of_ne hjn

theorem Inv.turn (hS : S.Lawful) (hx : S.Inv x) (h : S.Turn x y) : S.Inv y := by
  cases h with
  | @visit s waiting rest n hperm =>
  have hn : S.isBoundary n = false := (hx.waiting n (hperm.mem_iff.mpr List.mem_cons_self)).1
  have hup := hx.output_le_revise hn
  refine ⟨size_ins_revise.trans hx.size_ins, size_outs_revise.trans hx.size_outs, ?_, ?_, ?_, ?_, ?_,
    ?_⟩
  · intro k hk
    rcases List.mem_append.mp hk with hk | hk
    · exact hx.waiting k (hperm.mem_iff.mpr (List.mem_cons_of_mem _ hk))
    · unfold woken at hk
      split at hk
      · cases hk
      · obtain ⟨hdep, hb⟩ := List.mem_filter.mp hk
        exact ⟨by simpa using hb, fun _ => ⟨n, hdep⟩⟩
  · intro k hk hb
    have hkn : k ≠ n := by
      rintro rfl
      rw [hb] at hn
      cases hn
    obtain ⟨hin, hout⟩ := hx.boundary k hk hb
    exact ⟨(input_revise_of_ne hkn).trans hin, (output_revise_of_ne hkn).trans hout⟩
  · intro k hk hecho
    by_cases hkn : k = n
    · subst hkn
      show (S.revise s k).output k = (S.revise s k).input k
      rw [output_revise_self hx.size_outs hk, input_revise_self hx.size_ins hk]
      exact hecho.2 _ _
    · exact ((output_revise_of_ne hkn).trans (hx.echoed k hk hecho)).trans
        (input_revise_of_ne hkn).symm
  · intro k hk hb
    have hmono := hS.input_mono _ _ k hup
    by_cases hkn : k = n
    · subst hkn
      exact (input_revise_self hx.size_ins hk).trans_le hmono
    · exact (input_revise_of_ne hkn).trans_le ((hx.climbing k hk hb).trans hmono)
  · intro k hk hb
    have hmono := hS.result_mono size_ins_revise.symm (hx.input_le_revise hn) hup k
    by_cases hkn : k = n
    · subst hkn
      exact (output_revise_self hx.size_outs hk).trans_le hmono
    · exact (output_revise_of_ne hkn).trans_le ((hx.ascending k hk hb).trans hmono)
  · intro k hk hb hnot
    obtain ⟨hrest, hwoken⟩ := not_or.mp fun hor => hnot (List.mem_append.mpr hor)
    have hinput := hx.input_revise hS hk hb hwoken
    have hresult := hx.result_revise hS hk hb hwoken
    show (S.revise s n).input k = S.input (S.revise s n) k ∧ _ = S.result (S.revise s n) k
    rw [hinput, hresult]
    by_cases hkn : k = n
    · subst hkn
      exact ⟨input_revise_self hx.size_ins hk, output_revise_self hx.size_outs hk⟩
    · -- it neither was visited nor waited before
      have hbefore : k ∉ waiting := by
        intro hmem
        rcases List.mem_cons.mp (hperm.mem_iff.mp hmem) with h | h
        · exact hkn h
        · exact hrest h
      obtain ⟨hin, hout⟩ := hx.settled k hk hb hbefore
      exact ⟨(input_revise_of_ne hkn).trans hin, (output_revise_of_ne hkn).trans hout⟩

theorem Inv.turns (hS : S.Lawful) (hx : S.Inv x) (h : Relation.ReflTransGen S.Turn x y) : S.Inv y := by
  induction h with
  | refl => exact hx
  | tail _ hturn ih => exact ih.turn hS hturn

/-! ## Below every bound -/

/-- The facts of `x` are below those of `t`. -/
structure Below (S : System F ε) (t : Facts F) (x : Facts F × List Nat) : Prop where
  input : ∀ n < S.size, x.1.input n ≤ t.input n
  output : ∀ n, x.1.output n ≤ t.output n

omit [DecidableEq F] in
theorem below_begin (hS : S.Lawful) (ht : S.Bounds t) : S.Below t (S.begin.facts, waiting) where
  input n hn := (S.input_begin hn).trans_le (hS.initial_le _)
  output n := by
    show S.begin.facts.output n ≤ _
    by_cases hn : n < S.size
    · rw [S.output_begin hn]
      cases hb : S.isBoundary n with
      | true => exact ht.boundary n hn hb
      | false =>
        rw [hS.start_eq n hb]
        exact hS.initial_le _
    · rw [Facts.output_eq_default (by simpa [begin] using hn), hS.default_eq]
      exact hS.initial_le _

theorem Below.turn (hS : S.Lawful) (ht : S.Bounds t) (hx : S.Inv x) (hb : S.Below t x)
    (h : S.Turn x y) : S.Below t y := by
  cases h with
  | @visit s waiting rest n hperm =>
  have hn : S.isBoundary n = false := (hx.waiting n (hperm.mem_iff.mpr List.mem_cons_self)).1
  have hinput : S.input s n ≤ S.input t n := hS.input_mono _ _ n hb.output
  have hin : ∀ k, (s.setInput n (S.input s n)).input k ≤ t.input k := by
    intro k
    by_cases hk : k < S.size
    · by_cases hkn : k = n
      · subst hkn
        rw [Facts.input_setInput_self (hx.size_ins ▸ hk)]
        exact hinput.trans (ht.input k hk hn)
      · exact (Facts.input_setInput_of_ne hkn).trans_le (hb.input k hk)
    · have hge : (s.setInput n (S.input s n)).ins.size ≤ k := by
        simpa [Facts.setInput, hx.size_ins] using hk
      rw [Facts.input_eq_default hge, hS.default_eq]
      exact hS.initial_le _
  refine ⟨fun k _ => hin k, ?_⟩
  · intro k
    by_cases hlt : n < S.size
    · by_cases hkn : k = n
      · subst hkn
        refine (output_revise_self hx.size_outs hlt).trans_le (le_trans ?_ (ht.output k hlt hn))
        exact hS.transfer_mono _ _ _ _ _ hin (hinput.trans (ht.input k hlt hn))
      · exact (output_revise_of_ne hkn).trans_le (hb.output k)
    · exact (output_revise_of_ge hx.size_outs (Nat.le_of_not_lt hlt) k).trans_le (hb.output k)

theorem Below.turns (hS : S.Lawful) (ht : S.Bounds t) (hx : S.Inv x) (hb : S.Below t x)
    (h : Relation.ReflTransGen S.Turn x y) : S.Below t y := by
  induction h with
  | refl => exact hb
  | tail hturns hturn ih => exact ih.turn hS ht (hx.turns hS hturns) hturn

namespace Outcome

theorem inv (hS : S.Lawful) (h : S.Outcome s) : S.Inv (s, []) := by
  obtain ⟨waiting, hperm, hturns⟩ := h
  exact (inv_begin hS hperm).turns hS hturns

/-- Where nothing waits, the facts are a solution. -/
theorem solves (hS : S.Lawful) (h : S.Outcome s) : S.Solves s where
  boundary n hn hb := ((h.inv hS).boundary n hn hb).2
  input n hn hb := ((h.inv hS).settled n hn hb List.not_mem_nil).1
  output n hn hb := by
    obtain ⟨hin, hout⟩ := (h.inv hS).settled n hn hb List.not_mem_nil
    rw [hin, ← hS.result_eq hn hin]
    exact hout

/-- An outcome is below every bound, and so below every solution. -/
theorem below (hS : S.Lawful) (h : S.Outcome s) (ht : S.Bounds t) : S.Below t (s, []) := by
  obtain ⟨waiting, hperm, hturns⟩ := h
  exact (below_begin hS ht).turns hS ht (inv_begin hS hperm) hturns

/-- The order of the visits does not matter. -/
theorem unique (hS : S.Lawful) (hs : S.Outcome s) (ht : S.Outcome t) : s = t := by
  have hinv := hs.inv hS
  have hinv' := ht.inv hS
  have hst := hs.below hS (ht.solves hS).bounds
  have hts := ht.below hS (hs.solves hS).bounds
  refine Facts.ext_of_size (hinv.size_ins.trans hinv'.size_ins.symm)
    (hinv.size_outs.trans hinv'.size_outs.symm) ?_ ?_
  · intro n hn
    have hn : n < S.size := hinv.size_ins ▸ hn
    exact le_antisymm (hst.input n hn) (hts.input n hn)
  · intro n _
    exact le_antisymm (hst.output n) (hts.output n)

end Outcome

/-! ## Sets of facts that a system keeps to -/

/-- All facts that the system computes from facts of `U` are in `U`. -/
structure Keeps (S : System F ε) (U : Set F) : Prop where
  initial_mem : S.initial ∈ U
  start_mem : ∀ n, S.start n ∈ U
  input_mem : ∀ s n, (∀ k, s.output k ∈ U) → S.input s n ∈ U
  transfer_mem : ∀ s n f, f ∈ U → S.transfer s n f ∈ U

/-- The facts of `x` are in `U`. -/
structure Within (U : Set F) (x : Facts F × List Nat) : Prop where
  input : ∀ n, x.1.input n ∈ U
  output : ∀ n, x.1.output n ∈ U

variable {U : Set F}

omit [DecidableEq F] in
theorem within_begin (hS : S.Lawful) (hU : S.Keeps U) : Within U (S.begin.facts, waiting) where
  input n := by
    show S.begin.facts.input n ∈ U
    by_cases hn : n < S.size
    · rw [S.input_begin hn]
      exact hU.initial_mem
    · rw [Facts.input_eq_default (by simpa [begin] using hn), hS.default_eq]
      exact hU.initial_mem
  output n := by
    show S.begin.facts.output n ∈ U
    by_cases hn : n < S.size
    · rw [S.output_begin hn]
      exact hU.start_mem n
    · rw [Facts.output_eq_default (by simpa [begin] using hn), hS.default_eq]
      exact hU.initial_mem

theorem Within.turn (hS : S.Lawful) (hU : S.Keeps U) (hx : S.Inv x) (hw : Within U x)
    (h : S.Turn x y) : Within U y := by
  cases h with
  | @visit s waiting rest n hperm =>
  have hin := hU.input_mem s n hw.output
  refine ⟨?_, ?_⟩
  · intro k
    show (S.revise s n).input k ∈ U
    by_cases hkn : k = n
    · subst hkn
      by_cases hk : k < S.size
      · rw [input_revise_self hx.size_ins hk]
        exact hin
      · have hge : (S.revise s k).ins.size ≤ k := by
          simpa [hx.size_ins] using hk
        rw [Facts.input_eq_default hge, hS.default_eq]
        exact hU.initial_mem
    · rw [input_revise_of_ne hkn]
      exact hw.input k
  · intro k
    show (S.revise s n).output k ∈ U
    by_cases hlt : n < S.size
    · by_cases hkn : k = n
      · subst hkn
        rw [output_revise_self hx.size_outs hlt]
        exact hU.transfer_mem _ _ _ hin
      · rw [output_revise_of_ne hkn]
        exact hw.output k
    · rw [output_revise_of_ge hx.size_outs (Nat.le_of_not_lt hlt)]
      exact hw.output k

theorem Within.turns (hS : S.Lawful) (hU : S.Keeps U) (hx : S.Inv x) (hw : Within U x)
    (h : Relation.ReflTransGen S.Turn x y) : Within U y := by
  induction h with
  | refl => exact hw
  | tail hturns hturn ih => exact ih.turn hS hU (hx.turns hS hturns) hturn

/-- The facts of an outcome are in every set that the system keeps to. -/
theorem Outcome.within (hS : S.Lawful) (hU : S.Keeps U) (h : S.Outcome s) : Within U (s, []) := by
  obtain ⟨waiting, hperm, hturns⟩ := h
  exact (within_begin hS hU).turns hS hU (inv_begin hS hperm) hturns

/-! ## The number of turns -/

/-- Every step up among the facts of `U` raises a rank that is at most `height`. -/
structure Ranked (U : Set F) (rank : F → Nat) (height : Nat) : Prop where
  rank_lt : ∀ f ∈ U, ∀ g ∈ U, f < g → rank f < rank g
  rank_le : ∀ f ∈ U, rank f ≤ height

/-- How many nodes the outputs can still wake on their way up. -/
def climb (S : System F ε) (rank : F → Nat) (height : Nat) (s : Facts F) : Nat :=
  ∑ n ∈ Finset.range S.size, (height - rank (s.output n)) * (S.dependents n).length

/-- How many turns there can still be. -/
def potential (S : System F ε) (rank : F → Nat) (height : Nat) (x : Facts F × List Nat) : Nat :=
  x.2.length + S.climb rank height x.1

variable {rank : F → Nat} {height : Nat}

omit [DecidableEq F] [PartialOrder F] in
/-- A step up at one node pays for its dependents. -/
theorem climb_revise (houts : s.outs.size = S.size) (hn : n < S.size)
    (hlt : rank (s.output n) < rank (S.result s n)) (hle : rank (S.result s n) ≤ height) :
    (S.dependents n).length + S.climb rank height (S.revise s n) ≤ S.climb rank height s := by
  calc (S.dependents n).length + S.climb rank height (S.revise s n)
      = ∑ k ∈ Finset.range S.size, ((if k = n then (S.dependents n).length else 0) +
          (height - rank ((S.revise s n).output k)) * (S.dependents k).length) := by
        rw [Finset.sum_add_distrib, Finset.sum_ite_eq', if_pos (Finset.mem_range.mpr hn), climb]
    _ ≤ S.climb rank height s := by
        refine Finset.sum_le_sum fun k _ => ?_
        by_cases hkn : k = n
        · subst hkn
          rw [if_pos rfl, output_revise_self houts hn]
          have hstep : height - rank (S.result s k) + 1 ≤ height - rank (s.output k) := by omega
          calc (S.dependents k).length + (height - rank (S.result s k)) * (S.dependents k).length
              = (height - rank (S.result s k) + 1) * (S.dependents k).length := by
                rw [Nat.add_mul, Nat.one_mul, Nat.add_comm]
            _ ≤ _ := Nat.mul_le_mul_right _ hstep
        · rw [if_neg hkn, output_revise_of_ne hkn, Nat.zero_add]

/-- What a visit wakes is paid for by the step up of the output. -/
theorem woken_climb (hS : S.Lawful) (hU : S.Keeps U) (hr : Ranked U rank height)
    (hx : S.Inv (s, waiting)) (hw : Within U (s, waiting)) (hn : n ∈ waiting) :
    (S.woken s n).length + S.climb rank height (S.revise s n) ≤ S.climb rank height s := by
  by_cases hsame : S.result s n = s.output n
  · -- nothing changes, and nothing is woken
    simp [woken, hsame, climb, output_revise_of_same hx.size_outs hsame]
  · by_cases hlt : n < S.size
    · have hmem : S.result s n ∈ U := hU.transfer_mem _ _ _ (hU.input_mem s n hw.output)
      have hup : s.output n < S.result s n :=
        lt_of_le_of_ne (hx.ascending n hlt (hx.waiting n hn).1) (Ne.symm hsame)
      have hpaid := climb_revise (s := s) hx.size_outs hlt
        (hr.rank_lt _ (hw.output n) _ hmem hup) (hr.rank_le _ hmem)
      have hwoken : (S.woken s n).length ≤ (S.dependents n).length := by
        rw [woken, if_neg hsame]
        exact List.length_filter_le _ _
      omega
    · have hge := Nat.le_of_not_lt hlt
      obtain ⟨k, hk⟩ := (hx.waiting n hn).2 hge
      simp [woken, hS.dependents_eq_nil n k hge hk, climb,
        output_revise_of_ge (s := s) hx.size_outs hge]

/-- Every turn takes something off the potential. -/
theorem potential_turn (hS : S.Lawful) (hU : S.Keeps U) (hr : Ranked U rank height) (hx : S.Inv x)
    (hw : Within U x) (h : S.Turn x y) : S.potential rank height y < S.potential rank height x := by
  cases h with
  | @visit s waiting rest n hperm =>
  have hpaid := woken_climb hS hU hr hx hw (hperm.mem_iff.mpr List.mem_cons_self)
  have hlen : waiting.length = rest.length + 1 := hperm.length_eq
  simp only [potential, List.length_append, hlen]
  omega

/-- Turns come to an end, whichever nodes they visit. -/
theorem acc_turn (hS : S.Lawful) (hU : S.Keeps U) (hr : Ranked U rank height) (hx : S.Inv x)
    (hw : Within U x) : Acc (fun y x => S.Turn x y) x := by
  induction h : S.potential rank height x using Nat.strong_induction_on generalizing x with
  | _ k ih =>
    subst h
    exact .intro x fun y hturn =>
      ih _ (potential_turn hS hU hr hx hw hturn) (hx.turn hS hturn) (hw.turn hS hU hx hturn) rfl

/-- Turns lead to an outcome. -/
theorem exists_outcome (hS : S.Lawful) (hU : S.Keeps U) (hr : Ranked U rank height) :
    ∃ s, S.Outcome s := by
  have hacc := acc_turn hS hU hr (inv_begin hS (List.Perm.refl S.begin.waiting.toList))
    (within_begin hS hU)
  suffices h : ∀ x, Acc (fun y x => S.Turn x y) x →
      ∃ s, Relation.ReflTransGen S.Turn x (s, []) by
    obtain ⟨s, hs⟩ := h _ hacc
    exact ⟨s, _, List.Perm.refl _, hs⟩
  intro x hx
  induction hx with
  | intro x _ ih =>
    obtain ⟨s, waiting⟩ := x
    cases waiting with
    | nil => exact ⟨s, .refl⟩
    | cons n rest =>
      have hturn : S.Turn (s, n :: rest) _ := .visit (List.Perm.refl _)
      obtain ⟨t, ht⟩ := ih _ hturn
      exact ⟨t, .head hturn ht⟩

/-- The turns end, and with these facts, in whatever order the nodes wait and are visited. -/
structure Settles (S : System F ε) (s : Facts F) : Prop where
  outcome : S.Outcome s
  ends : ∀ waiting, waiting.Perm S.begin.waiting.toList →
    Acc (fun y x => S.Turn x y) (S.begin.facts, waiting)
  unique : ∀ t, S.Outcome t → t = s

theorem Outcome.settles (hS : S.Lawful) (hU : S.Keeps U) (hr : Ranked U rank height)
    (h : S.Outcome s) : S.Settles s where
  outcome := h
  ends _ hperm := acc_turn hS hU hr (inv_begin hS hperm) (within_begin hS hU)
  unique _ ht := ht.unique hS h

/-- The loop ended with a solution, or at the fault of a node that it visited. -/
def Halts (S : System F ε) (stop : Option (Stop ε)) : Prop :=
  stop = none ∨ ∃ n f e, (S.size ≤ n → ∃ k, n ∈ S.dependents k) ∧ S.fault n f = some e ∧
    stop = some (.fault e)

/-- Without a limit, a loop with fuel for its potential ends. -/
theorem loop_halts (hS : S.Lawful) (hU : S.Keeps U) (hr : Ranked U rank height) {limit : Int}
    (hlimit : limit ≤ 0) {fuel : Nat} {s : SolverState F} (hs : S.Inv (s.facts, s.waiting.toList))
    (hw : Within U (s.facts, s.waiting.toList))
    (hfuel : S.potential rank height (s.facts, s.waiting.toList) ≤ fuel) :
    S.Halts (S.loop limit fuel s).2 := by
  induction fuel generalizing s with
  | zero =>
    have hzero : s.waiting.toList.length = 0 := by
      simp only [potential] at hfuel
      omega
    rw [Queue.length_toList] at hzero
    exact Or.inl (by simp [loop, Queue.isEmpty, hzero])
  | succ fuel ih =>
    cases hpop : s.waiting.pop? with
    | none => exact Or.inl (by simp only [loop, hpop])
    | some q =>
      obtain ⟨n, rest⟩ := q
      have hover : overLimit limit s.iterations = false := by
        simp only [overLimit, decide_eq_false_iff_not]
        omega
      cases hfault : S.fault n (S.input s.facts n) with
      | some e =>
        have hmem : n ∈ s.waiting.toList := by
          rw [Queue.toList_pop? _ _ _ hpop]
          exact List.mem_cons_self
        refine Or.inr ⟨n, _, e, (hs.waiting n hmem).2, hfault, ?_⟩
        simp only [loop, hpop, hover, Bool.false_eq_true, if_false, visit, hfault]
      | none =>
        obtain ⟨u, hu, hfacts, hlist, -⟩ := S.visit_eq { s with waiting := rest } n hfault
        have hturn : S.Turn (s.facts, s.waiting.toList) (u.facts, u.waiting.toList) := by
          rw [hfacts, hlist, Queue.toList_pop? _ _ _ hpop]
          exact .visit (List.Perm.refl _)
        have hless := potential_turn hS hU hr hs hw hturn
        have hrest := ih (hs.turn hS hturn) (hw.turn hS hU hs hturn) (by omega)
        simp only [loop, hpop, hover, Bool.false_eq_true, if_false, hu]
        exact hrest

/-- Without a limit, the solver ends if its bound covers every way up. -/
theorem solve_halts (hS : S.Lawful) (hU : S.Keeps U) (hr : Ranked U rank height) {limit : Int}
    (hlimit : limit ≤ 0)
    (hvisits : S.size + height * ∑ n ∈ Finset.range S.size, (S.dependents n).length ≤ S.visits) :
    S.Halts (S.solve limit).2 := by
  refine loop_halts hS hU hr hlimit (inv_begin hS (List.Perm.refl _)) (within_begin hS hU) ?_
  refine le_trans (Nat.add_le_add ?_ ?_) hvisits
  · simpa [begin] using List.length_filter_le (fun n => !S.isBoundary n) (List.range S.size)
  · rw [climb, Finset.mul_sum]
    exact Finset.sum_le_sum fun n _ => Nat.mul_le_mul_right _ (Nat.sub_le _ _)

/-- Without faults it ends with a solution. -/
theorem solve_ends (hS : S.Lawful) (hU : S.Keeps U) (hr : Ranked U rank height)
    (hfault : ∀ n f, S.fault n f = none) {limit : Int} (hlimit : limit ≤ 0)
    (hvisits : S.size + height * ∑ n ∈ Finset.range S.size, (S.dependents n).length ≤ S.visits) :
    ∃ t, S.solve limit = (t, none) := by
  rcases solve_halts hS hU hr hlimit hvisits with hnone | ⟨n, f, e, _, he, _⟩
  · exact ⟨_, Prod.ext rfl hnone⟩
  · rw [hfault] at he
    cases he

end System

end WholeProgram
