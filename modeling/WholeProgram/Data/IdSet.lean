/-!
# Finite sets of numbers

Variables, objects and nodes are numbered, so the facts of the analyses are sets of natural numbers. The
type stands for the sparse sets of integers of a library that is not part of the program. Here a set is
the number whose binary digit `i` says whether `i` is a member, and two sets with the same members are
equal (`ext`).

Everything else is about what the operations do to the members (`mem_insert`, `mem_union`, `mem_inter`,
`mem_diff`, `mem_erase`, `isEmpty_iff`, `mem_toList`), and that they are listed in increasing order
(`pairwise_toList`); no other module looks at the digits.
-/

namespace WholeProgram

/-- A finite set of natural numbers, one binary digit of `bits` per possible member. -/
structure IdSet where
  bits : Nat
deriving DecidableEq, Repr

namespace IdSet

instance : Inhabited IdSet := ⟨⟨0⟩⟩

/-- The set without members. -/
def empty : IdSet := ⟨0⟩

instance : EmptyCollection IdSet := ⟨empty⟩

/-- Membership as a Boolean. -/
def contains (s : IdSet) (i : Nat) : Bool := s.bits.testBit i

instance : Membership Nat IdSet := ⟨fun s i => s.contains i = true⟩

instance (i : Nat) (s : IdSet) : Decidable (i ∈ s) := inferInstanceAs (Decidable (s.contains i = true))

def insert (s : IdSet) (i : Nat) : IdSet := ⟨s.bits ||| 1 <<< i⟩

def union (s t : IdSet) : IdSet := ⟨s.bits ||| t.bits⟩

def inter (s t : IdSet) : IdSet := ⟨s.bits &&& t.bits⟩

/-- The members of `s` that are not in `t`. -/
def diff (s t : IdSet) : IdSet := ⟨s.bits ^^^ (s.bits &&& t.bits)⟩

def erase (s : IdSet) (i : Nat) : IdSet := s.diff ⟨1 <<< i⟩

def isEmpty (s : IdSet) : Bool := s.bits == 0

/-- Every member of `s` is a member of `t`. -/
def subset (s t : IdSet) : Bool := (s.diff t).isEmpty

/-- The positions of the binary digits one of a number below `1 <<< (1 <<< depth)`, in increasing order
and each moved up by `offset`. The digits are halved until there is nothing in them or only one is left. -/
def positions : Nat → Nat → Nat → List Nat
  | 0, offset, bits => if bits = 0 then [] else [offset]
  | depth + 1, offset, bits =>
    if bits = 0 then []
    else
      positions depth offset (bits % (1 <<< (1 <<< depth)))
        ++ positions depth (offset + 1 <<< depth) (bits >>> (1 <<< depth))

/-- The members in increasing order. -/
def toList (s : IdSet) : List Nat := positions ((s.bits.log2 + 1).log2 + 1) 0 s.bits

/-- Number of members. -/
def size (s : IdSet) : Nat := s.toList.length

def ofList (is : List Nat) : IdSet := is.foldl insert empty

theorem mem_def (i : Nat) (s : IdSet) : i ∈ s ↔ s.bits.testBit i = true := Iff.rfl

/-- Two sets with the same members are equal. -/
@[ext]
theorem ext {s t : IdSet} (h : ∀ i, i ∈ s ↔ i ∈ t) : s = t := by
  cases s with
  | mk a =>
    cases t with
    | mk b =>
      congr 1
      apply Nat.eq_of_testBit_eq
      intro i
      have := h i
      simp only [mem_def] at this
      exact Bool.eq_iff_iff.mpr this

@[simp]
theorem not_mem_empty (i : Nat) : ¬ i ∈ (∅ : IdSet) := by
  simp [mem_def, EmptyCollection.emptyCollection, empty]

@[simp]
theorem mem_insert (s : IdSet) (i j : Nat) : j ∈ s.insert i ↔ j = i ∨ j ∈ s := by
  simp only [mem_def, insert, Nat.one_shiftLeft, Nat.testBit_or, Nat.testBit_two_pow, Bool.or_eq_true, decide_eq_true_eq]
  constructor
  · rintro (h | h)
    · exact Or.inr h
    · exact Or.inl h.symm
  · rintro (h | h)
    · exact Or.inr h.symm
    · exact Or.inl h

@[simp]
theorem mem_union (s t : IdSet) (i : Nat) : i ∈ s.union t ↔ i ∈ s ∨ i ∈ t := by
  simp [mem_def, union]

@[simp]
theorem mem_inter (s t : IdSet) (i : Nat) : i ∈ s.inter t ↔ i ∈ s ∧ i ∈ t := by
  simp [mem_def, inter]

@[simp]
theorem mem_diff (s t : IdSet) (i : Nat) : i ∈ s.diff t ↔ i ∈ s ∧ ¬ i ∈ t := by
  simp only [mem_def, diff, Nat.testBit_xor, Nat.testBit_and]
  cases s.bits.testBit i <;> cases t.bits.testBit i <;> simp

@[simp]
theorem mem_erase (s : IdSet) (i j : Nat) : j ∈ s.erase i ↔ j ∈ s ∧ j ≠ i := by
  simp only [erase, mem_diff]
  simp only [mem_def, Nat.one_shiftLeft, Nat.testBit_two_pow, decide_eq_true_eq]
  exact ⟨fun h => ⟨h.1, fun e => h.2 e.symm⟩, fun h => ⟨h.1, fun e => h.2 e.symm⟩⟩

theorem isEmpty_iff (s : IdSet) : s.isEmpty = true ↔ ∀ i, ¬ i ∈ s := by
  have hbits : s.isEmpty = true ↔ s.bits = 0 := by simp [isEmpty]
  rw [hbits]
  constructor
  · intro h i
    simp [mem_def, h]
  · intro h
    refine Nat.eq_of_testBit_eq fun i => ?_
    rw [Nat.zero_testBit]
    exact Bool.eq_false_iff.mpr (h i)

theorem isEmpty_eq_false_iff (s : IdSet) : s.isEmpty = false ↔ ∃ i, i ∈ s := by
  rw [← Bool.not_eq_true, isEmpty_iff]
  exact Classical.not_forall_not

/-- The listed positions are those of the digits one. -/
theorem mem_positions (depth offset bits i : Nat) (h : bits < 1 <<< (1 <<< depth)) :
    i ∈ positions depth offset bits ↔ ∃ j, i = offset + j ∧ bits.testBit j = true := by
  induction depth generalizing offset bits with
  | zero =>
    simp only [Nat.one_shiftLeft] at h
    have hb : bits = 0 ∨ bits = 1 := by omega
    rcases hb with rfl | rfl
    · simp [positions]
    · simp only [positions, Nat.one_ne_zero, if_false, List.mem_singleton]
      constructor
      · intro hi
        exact ⟨0, by omega, by simp⟩
      · rintro ⟨j, rfl, hj⟩
        cases j with
        | zero => rfl
        | succ j => simp [Nat.testBit_succ] at hj
  | succ depth ih =>
    unfold positions
    split
    · rename_i hz
      simp [hz]
    · simp only [Nat.one_shiftLeft] at h ih ⊢
      have hlow : bits % 2 ^ 2 ^ depth < 2 ^ 2 ^ depth := Nat.mod_lt _ (Nat.two_pow_pos _)
      have hhigh : bits >>> 2 ^ depth < 2 ^ 2 ^ depth := by
        rw [Nat.shiftRight_eq_div_pow]
        apply Nat.div_lt_of_lt_mul
        rw [← Nat.pow_add]
        have : 2 ^ depth + 2 ^ depth = 2 ^ (depth + 1) := by rw [Nat.pow_succ]; omega
        rwa [this]
      rw [List.mem_append, ih _ _ hlow, ih _ _ hhigh]
      constructor
      · rintro (⟨j, rfl, hj⟩ | ⟨j, rfl, hj⟩)
        · rw [Nat.testBit_mod_two_pow] at hj
          simp only [Bool.and_eq_true, decide_eq_true_eq] at hj
          exact ⟨j, rfl, hj.2⟩
        · rw [Nat.testBit_shiftRight] at hj
          exact ⟨2 ^ depth + j, by omega, hj⟩
      · rintro ⟨j, rfl, hj⟩
        rcases Nat.lt_or_ge j (2 ^ depth) with hlt | hge
        · refine Or.inl ⟨j, rfl, ?_⟩
          rw [Nat.testBit_mod_two_pow]
          simp [hlt, hj]
        · refine Or.inr ⟨j - 2 ^ depth, by omega, ?_⟩
          rw [Nat.testBit_shiftRight]
          have : 2 ^ depth + (j - 2 ^ depth) = j := by omega
          rwa [this]

@[simp]
theorem mem_toList (s : IdSet) (i : Nat) : i ∈ s.toList ↔ i ∈ s := by
  have h : s.bits < 1 <<< (1 <<< ((s.bits.log2 + 1).log2 + 1)) := by
    simp only [Nat.one_shiftLeft]
    have hwide : s.bits.log2 + 1 ≤ 2 ^ ((s.bits.log2 + 1).log2 + 1) := Nat.le_of_lt Nat.lt_log2_self
    exact Nat.lt_of_lt_of_le Nat.lt_log2_self (Nat.pow_le_pow_right (by omega) hwide)
  rw [toList, mem_positions _ _ _ _ h, mem_def]
  simp

/-- The positions of digits one are listed in increasing order. -/
theorem pairwise_positions (depth offset bits : Nat) (h : bits < 1 <<< (1 <<< depth)) :
    (positions depth offset bits).Pairwise (· < ·) := by
  induction depth generalizing offset bits with
  | zero =>
    unfold positions
    split
    · exact List.Pairwise.nil
    · exact List.pairwise_singleton _ _
  | succ depth ih =>
    have hlow : bits % (1 <<< (1 <<< depth)) < 1 <<< (1 <<< depth) :=
      Nat.mod_lt _ (by simp only [Nat.one_shiftLeft]; exact Nat.two_pow_pos _)
    have hhigh : bits >>> (1 <<< depth) < 1 <<< (1 <<< depth) := by
      simp only [Nat.one_shiftLeft, Nat.shiftRight_eq_div_pow] at h ⊢
      apply Nat.div_lt_of_lt_mul
      rwa [← Nat.pow_add, ← Nat.two_mul, ← Nat.pow_succ']
    unfold positions
    split
    · exact List.Pairwise.nil
    · refine List.pairwise_append.mpr ⟨ih _ _ hlow, ih _ _ hhigh, fun a ha b hb => ?_⟩
      obtain ⟨j, rfl, hj⟩ := (mem_positions _ _ _ _ hlow).mp ha
      obtain ⟨k, rfl, -⟩ := (mem_positions _ _ _ _ hhigh).mp hb
      -- the lower half has no digits beyond its width
      have hlt : j < 1 <<< depth := by
        rw [Nat.one_shiftLeft (1 <<< depth), Nat.testBit_mod_two_pow, Bool.and_eq_true] at hj
        exact of_decide_eq_true hj.1
      omega

/-- The members are listed in increasing order. -/
theorem pairwise_toList (s : IdSet) : s.toList.Pairwise (· < ·) := by
  apply pairwise_positions
  simp only [Nat.one_shiftLeft]
  have hwide : s.bits.log2 + 1 ≤ 2 ^ ((s.bits.log2 + 1).log2 + 1) := Nat.le_of_lt Nat.lt_log2_self
  exact Nat.lt_of_lt_of_le Nat.lt_log2_self (Nat.pow_le_pow_right (by omega) hwide)

end IdSet

end WholeProgram
