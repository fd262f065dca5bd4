import Mathlib.Data.List.Induction
import WholeProgram.Data.Queue

/-!
# Queues hand out what was added, in order

A history of calls on a new queue adds elements and takes elements. Where nothing is taken from an empty
queue, every call succeeds: what was taken are the first elements that were added, and the others are
still waiting (`run_fifo`). Counting tells whether a history is one of these (`feeds_iff`).

The invariant puts the two side by side (`Splits`); that a buffer was dropped or cut on the way cannot be
seen, as the invariant is about what is waiting and not about its place.
-/

namespace WholeProgram.Queue

/-- A call on a queue. -/
inductive Call (α : Type) where
  | push (a : α)
  | pop
deriving DecidableEq

namespace Call

variable {α : Type}

/-- The elements that calls add, in order. -/
def pushed (calls : List (Call α)) : List α :=
  calls.filterMap fun
    | push a => some a
    | pop => none

/-- How many of the calls take an element. -/
def pops (calls : List (Call α)) : Nat :=
  calls.countP fun
    | push _ => false
    | pop => true

/-- Before every call that takes an element, more were added than taken. -/
def NeverStarves (calls : List (Call α)) : Prop :=
  ∀ before after, calls = before ++ pop :: after → pops before < (pushed before).length

variable {calls : List (Call α)}

theorem NeverStarves.of_append {more : List (Call α)} (h : NeverStarves (calls ++ more)) :
    NeverStarves calls := by
  rintro before after rfl
  exact h before (after ++ more) (by simp)

/-- Counting what waits decides whether a history takes an element from an empty queue. -/
def feeds (waiting : Nat) : List (Call α) → Bool
  | [] => true
  | push _ :: calls => feeds (waiting + 1) calls
  | pop :: calls => decide (0 < waiting) && feeds (waiting - 1) calls

@[simp]
theorem pushed_append (calls more : List (Call α)) : pushed (calls ++ more) = pushed calls ++ pushed more :=
  List.filterMap_append

@[simp]
theorem pops_append (calls more : List (Call α)) : pops (calls ++ more) = pops calls + pops more :=
  List.countP_append

@[simp]
theorem pushed_push_cons (a : α) (calls : List (Call α)) : pushed (push a :: calls) = a :: pushed calls := rfl

@[simp]
theorem pushed_pop_cons (calls : List (Call α)) : pushed (pop :: calls) = pushed calls := rfl

@[simp]
theorem pops_push_cons (a : α) (calls : List (Call α)) : pops (push a :: calls) = pops calls := rfl

@[simp]
theorem pops_pop_cons (calls : List (Call α)) : pops (pop :: calls) = pops calls + 1 := List.countP_cons

/-- The calls before the first one, and those before the others. -/
theorem forall_before_pop_cons {c : Call α} {P : List (Call α) → Prop} :
    (∀ before after, c :: calls = before ++ pop :: after → P before) ↔
      (c = pop → P []) ∧ ∀ before after, calls = before ++ pop :: after → P (c :: before) := by
  constructor
  · intro h
    refine ⟨fun hc => h [] calls (by rw [hc, List.nil_append]), fun before after heq => ?_⟩
    exact h (c :: before) after (by rw [heq, List.cons_append])
  · rintro ⟨hfirst, hothers⟩ before after heq
    obtain ⟨rfl, hcons⟩ | ⟨others, rfl, hcalls⟩ := List.cons_eq_append_iff.mp heq
    · exact hfirst (List.cons.inj hcons).1.symm
    · exact hothers others after hcalls

/-- What waits is what waited at first, with what was added and without what was taken. -/
theorem feeds_iff {waiting : Nat} : feeds waiting calls = true ↔
    ∀ before after, calls = before ++ pop :: after → pops before < waiting + (pushed before).length := by
  induction calls generalizing waiting with
  | nil => simp [feeds]
  | cons c calls ih =>
    rw [forall_before_pop_cons]
    cases c with
    | push a =>
      simp only [feeds, ih, pops_push_cons, pushed_push_cons, List.length_cons, Nat.add_right_comm waiting 1,
        Nat.add_assoc waiting]
      simp
    | pop =>
      simp only [feeds, Bool.and_eq_true, decide_eq_true_eq, ih, pops_pop_cons, pushed_pop_cons]
      constructor
      · rintro ⟨hwaits, hothers⟩
        refine ⟨fun _ => hwaits, fun before after heq => ?_⟩
        have hbefore := hothers before after heq
        omega
      · rintro ⟨hwaits, hothers⟩
        refine ⟨hwaits trivial, fun before after heq => ?_⟩
        have hbefore := hothers before after heq
        omega

instance (calls : List (Call α)) : Decidable (NeverStarves calls) :=
  decidable_of_iff (feeds 0 calls = true) (by simp only [feeds_iff, NeverStarves, Nat.zero_add])

end Call

open Queue.Call

variable {α : Type}

/-! ## What one call does -/

/-- What was taken and what is waiting is what was added, in order. -/
structure Splits (calls : List (Call α)) (q : Queue α) (taken : List α) : Prop where
  order : taken ++ q.toList = pushed calls
  count : taken.length = pops calls

namespace Splits

variable {calls : List (Call α)} {q r : Queue α} {taken : List α} {a : α}

theorem push (h : Splits calls q taken) (a : α) : Splits (calls ++ [.push a]) (q.push a) taken where
  order := by
    rw [toList_push, pushed_append, ← h.order, List.append_assoc]
    rfl
  count := by
    rw [pops_append, ← h.count]
    rfl

theorem pop [Inhabited α] (h : Splits calls q taken) (hpop : q.pop? = some (a, r)) :
    Splits (calls ++ [.pop]) r (taken ++ [a]) where
  order := by
    have hfront := toList_pop? q r a hpop
    have horder := h.order
    rw [hfront] at horder
    rw [pushed_append, ← horder, List.append_assoc]
    exact (List.append_nil _).symm
  count := by
    rw [List.length_append, pops_append, h.count]
    rfl

/-- With more elements added than taken, something is waiting. -/
theorem toList_ne_nil (h : Splits calls q taken) (hmore : pops calls < (pushed calls).length) :
    q.toList ≠ [] := by
  intro hnil
  have hlength := congrArg List.length h.order
  rw [hnil, List.append_nil, h.count] at hlength
  omega

theorem taken_eq (h : Splits calls q taken) : taken = (pushed calls).take (pops calls) := by
  rw [← h.order, ← h.count, List.take_left]

theorem toList_eq (h : Splits calls q taken) : q.toList = (pushed calls).drop (pops calls) := by
  rw [← h.order, ← h.count, List.drop_left]

end Splits

/-! ## Histories -/

section

variable [Inhabited α]

/-- What a call makes of a queue and of the elements that were taken from it. Taking an element from an
empty queue reads behind the buffer. -/
def perform (s : Queue α × List α) : Call α → Option (Queue α × List α)
  | .push a => some (s.1.push a, s.2)
  | .pop => s.1.pop?.map fun r => (r.2, s.2 ++ [r.1])

/-- The queue after a history of calls, and the elements that were taken. -/
def run (calls : List (Call α)) : Option (Queue α × List α) := calls.foldlM perform (empty, [])

theorem run_concat (calls : List (Call α)) (c : Call α) :
    run (calls ++ [c]) = (run calls).bind fun s => perform s c := by
  unfold run
  rw [List.foldlM_append]
  cases calls.foldlM perform (empty, []) <;> simp

/-- Where nothing is taken from an empty queue, all calls succeed. -/
theorem run_splits {calls : List (Call α)} (h : NeverStarves calls) :
    ∃ q taken, run calls = some (q, taken) ∧ Splits calls q taken := by
  induction calls using List.reverseRecOn with
  | nil => exact ⟨empty, [], rfl, rfl, rfl⟩
  | append_singleton calls c ih =>
    obtain ⟨q, taken, hrun, hsplits⟩ := ih h.of_append
    rw [run_concat, hrun]
    cases c with
    | push a => exact ⟨q.push a, taken, rfl, hsplits.push a⟩
    | pop =>
      have hwaiting := hsplits.toList_ne_nil (h calls [] rfl)
      cases hpop : q.pop? with
      | none => exact absurd ((pop?_eq_none_iff q).mp hpop) hwaiting
      | some r =>
        refine ⟨r.2, taken ++ [r.1], ?_, hsplits.pop hpop⟩
        simp [perform, hpop]

/-- A history that takes nothing from an empty queue reads and writes inside the buffer. The elements
taken are the first ones that were added, each once and in order; the others are waiting, and the size
tells how many they are. -/
theorem run_fifo (calls : List (Call α)) (h : NeverStarves calls) :
    ∃ q taken, run calls = some (q, taken) ∧
      taken = (pushed calls).take (pops calls) ∧
      q.toList = (pushed calls).drop (pops calls) ∧
      q.size = (pushed calls).length - pops calls ∧
      (q.isEmpty = true ↔ pops calls = (pushed calls).length) := by
  obtain ⟨q, taken, hrun, hsplits⟩ := run_splits h
  have hsize : q.size = (pushed calls).length - pops calls := by
    rw [← length_toList, hsplits.toList_eq, List.length_drop]
  have hcount : pops calls ≤ (pushed calls).length := by
    rw [← hsplits.count, ← hsplits.order, List.length_append]
    exact Nat.le_add_right _ _
  refine ⟨q, taken, hrun, hsplits.taken_eq, hsplits.toList_eq, hsize, ?_⟩
  rw [isEmpty, beq_iff_eq, hsize]
  omega

end

/-- As many elements are taken as it takes to cut the buffer. -/
def burst : List (Call Nat) := (List.range 1030).map .push ++ List.replicate (slack + 1) .pop

theorem run_fifo_burst : NeverStarves burst ∧ ∃ q, run burst = some (q, List.range 1025) ∧
    q.toList = [1025, 1026, 1027, 1028, 1029] ∧ q.size = 5 ∧ q.isEmpty = false := by
  have hfed : NeverStarves burst := by decide +kernel
  obtain ⟨q, taken, hrun, htaken, hwaiting, hsize, hempty⟩ := run_fifo burst hfed
  have hpushed : pushed burst = List.range 1030 := by decide +kernel
  have hpops : pops burst = 1025 := by decide +kernel
  rw [hpushed, hpops, List.length_range] at hsize hempty
  rw [hpushed, hpops, List.take_range, Nat.min_eq_left (by decide)] at htaken
  rw [hpushed, hpops, List.range_eq_range', List.drop_range'] at hwaiting
  refine ⟨hfed, q, by rw [hrun, htaken], hwaiting, hsize, ?_⟩
  rw [← Bool.not_eq_true, hempty]
  decide

end WholeProgram.Queue
