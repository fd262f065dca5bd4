import Mathlib.Logic.Relation
import WholeProgram.DeadCode

/-!
# What a walk along the feasible edges reaches

A walk takes one waiting node after another. Which one it takes does not matter: `Round` lets it take any
of them.

* `Rounds.le_potential` — every round uses up an edge or a waiting node, so that a walk ends in any order;
* `Explored` — the invariant: what waits or is marked lies behind feasible edges, and a feasible edge from
  a marked node leads to one that is marked or still waits;
* `Explored.mem_reached_iff` — where nothing waits any more, exactly the nodes on feasible paths are marked;
* `rounds_walk` — the walk over a stack is one of these.
-/

namespace WholeProgram.DeadCode

/-- A feasible edge leads from the first node to the second. -/
def Leads (g : Cfg) (c : Solution Fact) (n k : Nat) : Prop :=
  ∃ e ∈ feasibleEdges g n (c.inFact n), e.target = k

/-- Feasible edges lead from the entry to a node. -/
def OnPath (g : Cfg) (c : Solution Fact) (n : Nat) : Prop := Relation.ReflTransGen (Leads g c) 0 n

/-- The state of a walk: the nodes that wait, some of them more than once, and the marked ones. -/
structure Walk where
  waiting : List Nat
  reached : IdSet

/-- One round of a walk that may take any of the waiting nodes. A marked one is dropped; another one is
marked, and the new targets of its feasible edges wait with the others, in any order. -/
inductive Round (g : Cfg) (c : Solution Fact) : Walk → Walk → Prop
  | drop {s : Walk} {n : Nat} {rest : List Nat} : s.waiting.Perm (n :: rest) → n ∈ s.reached →
      Round g c s ⟨rest, s.reached⟩
  | visit {s : Walk} {n : Nat} {rest waiting : List Nat} : s.waiting.Perm (n :: rest) → n ∉ s.reached →
      waiting.Perm (newTargets g c n (s.reached.insert n) ++ rest) →
      Round g c s ⟨waiting, s.reached.insert n⟩

/-- A number of rounds, one after another. -/
inductive Rounds (g : Cfg) (c : Solution Fact) : Nat → Walk → Walk → Prop
  | none {s : Walk} : Rounds g c 0 s s
  | next {s t u : Walk} {k : Nat} : Round g c s t → Rounds g c k t u → Rounds g c (k + 1) s u

variable {g : Cfg} {c : Solution Fact} {s t : Walk} {n k : Nat}

theorem mem_newTargets {reached : IdSet} :
    k ∈ newTargets g c n reached ↔ Leads g c n k ∧ k ∉ reached := by
  simp only [newTargets, List.mem_filter, List.mem_map, Bool.not_eq_true']
  rw [← Bool.not_eq_true]
  exact Iff.rfl

/-! ## A walk ends -/

/-- What a walk can still do: take what waits, and go along the edges of nodes that are not marked. -/
def Walk.potential (g : Cfg) (s : Walk) : Nat := s.waiting.length + edgesAhead g s.reached

theorem Round.potential_lt (h : Round g c s t) : t.potential g < s.potential g := by
  cases h with
  | drop hperm _ =>
    simp only [Walk.potential, hperm.length_eq, List.length_cons]
    omega
  | @visit n rest waiting hperm hnew hwaiting =>
    have htargets := length_newTargets_le g c n (s.reached.insert n)
    have hedges := edgesAhead_insert g hnew
    simp only [Walk.potential, hperm.length_eq, hwaiting.length_eq, List.length_append, List.length_cons]
    omega

theorem Rounds.le_potential (h : Rounds g c k s t) : k + t.potential g ≤ s.potential g := by
  induction h with
  | none => omega
  | next hround _ ih =>
    have hlt := hround.potential_lt
    omega

/-- While a node waits, the walk goes on. -/
theorem exists_round (h : s.waiting ≠ []) : ∃ t, Round g c s t := by
  obtain ⟨n, rest, hwaiting⟩ := List.exists_cons_of_ne_nil h
  have hperm : s.waiting.Perm (n :: rest) := by rw [hwaiting]
  by_cases hn : n ∈ s.reached
  · exact ⟨_, .drop hperm hn⟩
  · exact ⟨_, .visit hperm hn (List.Perm.refl _)⟩

/-! ## What it has reached -/

/-- What waits or is marked lies on a feasible path. The entry does, and what a marked node leads to. -/
structure Explored (g : Cfg) (c : Solution Fact) (s : Walk) : Prop where
  sound : ∀ n, n ∈ s.waiting ∨ n ∈ s.reached → OnPath g c n
  entry : 0 ∈ s.waiting ∨ 0 ∈ s.reached
  closed : ∀ n ∈ s.reached, ∀ k, Leads g c n k → k ∈ s.waiting ∨ k ∈ s.reached

theorem explored_entry (g : Cfg) (c : Solution Fact) : Explored g c ⟨[0], ∅⟩ where
  sound n hn := by
    rcases hn with hn | hn
    · obtain rfl := List.mem_singleton.mp hn
      exact .refl
    · exact absurd hn (IdSet.not_mem_empty n)
  entry := Or.inl List.mem_cons_self
  closed n hn := absurd hn (IdSet.not_mem_empty n)

/-- No node is lost: one that is taken is marked. -/
theorem Round.keeps (h : Round g c s t) (hk : k ∈ s.waiting ∨ k ∈ s.reached) :
    k ∈ t.waiting ∨ k ∈ t.reached := by
  cases h with
  | drop hperm hmarked =>
    rcases hk with hk | hk
    · rcases List.mem_cons.mp (hperm.mem_iff.mp hk) with rfl | hk
      · exact Or.inr hmarked
      · exact Or.inl hk
    · exact Or.inr hk
  | visit hperm _ hwaiting =>
    simp only [hwaiting.mem_iff, List.mem_append, IdSet.mem_insert]
    rcases hk with hk | hk
    · rcases List.mem_cons.mp (hperm.mem_iff.mp hk) with rfl | hk
      · exact Or.inr (Or.inl rfl)
      · exact Or.inl (Or.inr hk)
    · exact Or.inr (Or.inr hk)

theorem Explored.round (hs : Explored g c s) (h : Round g c s t) : Explored g c t where
  entry := h.keeps hs.entry
  sound k hk := by
    cases h with
    | drop hperm _ =>
      exact hs.sound k (hk.imp_left fun hk => hperm.mem_iff.mpr (List.mem_cons_of_mem _ hk))
    | @visit n rest waiting hperm _ hwaiting =>
      have hn : OnPath g c n := hs.sound n (Or.inl (hperm.mem_iff.mpr List.mem_cons_self))
      simp only [hwaiting.mem_iff, List.mem_append, IdSet.mem_insert] at hk
      rcases hk with (hk | hk) | rfl | hk
      · exact hn.tail (mem_newTargets.mp hk).1
      · exact hs.sound k (Or.inl (hperm.mem_iff.mpr (List.mem_cons_of_mem _ hk)))
      · exact hn
      · exact hs.sound k (Or.inr hk)
  closed j hj k hlead := by
    by_cases hold : j ∈ s.reached
    · exact h.keeps (hs.closed j hold k hlead)
    · -- the node was marked in this round, so that its targets were put with those that wait
      cases h with
      | drop => exact absurd hj hold
      | visit _ _ hwaiting =>
        obtain rfl : j = _ := ((IdSet.mem_insert _ _ _).mp hj).resolve_right hold
        by_cases hk : k ∈ s.reached.insert j
        · exact Or.inr hk
        · exact Or.inl (hwaiting.mem_iff.mpr (List.mem_append_left _ (mem_newTargets.mpr ⟨hlead, hk⟩)))

theorem Explored.rounds (hs : Explored g c s) (h : Rounds g c k s t) : Explored g c t := by
  induction h with
  | none => exact hs
  | next hround _ ih => exact ih (hs.round hround)

/-- Where nothing waits any more, exactly the nodes on feasible paths are marked. -/
theorem Explored.mem_reached_iff (hs : Explored g c s) (hdone : s.waiting = []) :
    n ∈ s.reached ↔ OnPath g c n := by
  have hwaits : ∀ k, ¬ k ∈ s.waiting := fun k hk => absurd (hdone ▸ hk) List.not_mem_nil
  constructor
  · exact fun hn => hs.sound n (Or.inr hn)
  · intro hn
    induction hn with
    | refl => exact hs.entry.resolve_left (hwaits 0)
    | tail _ hlead ih => exact (hs.closed _ ih _ hlead).resolve_left (hwaits _)

/-! ## The walk over a stack -/

/-- Taking the last node that was put on the stack is one of the ways to walk. -/
theorem rounds_walk (g : Cfg) (c : Solution Fact) (stack : List Nat) (reached : IdSet) :
    ∃ k, Rounds g c k ⟨stack, reached⟩ ⟨[], walk g c stack reached⟩ := by
  fun_induction walk g c stack reached with
  | case1 => exact ⟨0, .none⟩
  | case2 reached n rest hn ih =>
    obtain ⟨k, hrounds⟩ := ih
    exact ⟨k + 1, .next (.drop (List.Perm.refl _) hn) hrounds⟩
  | case3 reached n rest hn marked ih =>
    obtain ⟨k, hrounds⟩ := ih
    exact ⟨k + 1, .next (.visit (List.Perm.refl _) hn ((List.reverse_perm _).append_right rest)) hrounds⟩

theorem mem_reachable_iff : n ∈ reachable g c ↔ OnPath g c n := by
  obtain ⟨k, hrounds⟩ := rounds_walk g c [0] ∅
  exact ((explored_entry g c).rounds hrounds).mem_reached_iff rfl

end WholeProgram.DeadCode
