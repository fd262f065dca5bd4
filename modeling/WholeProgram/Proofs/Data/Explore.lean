import Mathlib.Data.List.Nodup
import Mathlib.Data.List.Perm.Subperm
import Mathlib.Logic.Relation
import WholeProgram.Data.Explore

/-!
# What an exploration reaches

The numbers reached are closed: they contain the start, and with a number those after it
(`mem_reached_of_start`, `mem_reached_of_next`). The invariant is about the numbers met so far, of which
the first ones were visited; as every number is met once, the visits are enough for all of them. The
numbers listed are the same, each once (`mem_order_iff`, `nodup_order`), and those of the start come first.
-/

namespace WholeProgram.Explore

variable {n : Nat} {next : Nat → List Nat} {order : Array Nat} {seen : IdSet} {v w : Nat}

/-- The marked numbers are those of `order`, each once and below `n`. -/
structure Marks (n : Nat) (order : Array Nat) (seen : IdSet) : Prop where
  mem : ∀ w, w ∈ seen ↔ w ∈ order.toList
  lt : ∀ w ∈ order.toList, w < n
  nodup : order.toList.Nodup

theorem Marks.size_le (h : Marks n order seen) : order.size ≤ n := by
  have hsub : order.toList ⊆ List.range n := fun w hw => List.mem_range.mpr (h.lt w hw)
  simpa using (List.subperm_of_subset h.nodup hsub).length_le

theorem Marks.push (h : Marks n order seen) (hlt : w < n) (hnew : ¬ w ∈ seen) :
    Marks n (order.push w) (seen.insert w) where
  mem v := by
    rw [IdSet.mem_insert, h.mem, Array.toList_push, List.mem_append, List.mem_singleton]
    exact or_comm
  lt v hv := by
    rw [Array.toList_push, List.mem_append, List.mem_singleton] at hv
    rcases hv with hv | rfl
    · exact h.lt v hv
    · exact hlt
  nodup := by
    rw [Array.toList_push]
    refine List.nodup_append.mpr ⟨h.nodup, List.nodup_singleton w, ?_⟩
    intro a ha b hb hab
    rw [List.mem_singleton] at hb
    exact hnew ((h.mem w).mpr (hb ▸ hab ▸ ha))

/-- What is met is appended, and marked. -/
theorem meet_spec (h : Marks n order seen) (found : List Nat) :
    Marks n (meet n found order seen).1 (meet n found order seen).2 ∧
      order.toList <+: (meet n found order seen).1.toList ∧
      ∀ w ∈ found, w < n → w ∈ (meet n found order seen).2 := by
  induction found generalizing order seen with
  | nil => exact ⟨h, List.prefix_refl _, fun w hw => absurd hw List.not_mem_nil⟩
  | cons w found ih =>
    unfold meet
    rw [List.foldl_cons]
    by_cases hw : w < n ∧ seen.contains w = false
    · rw [if_pos hw]
      have hnew : ¬ w ∈ seen := by
        intro hmem
        rw [show seen.contains w = true from hmem] at hw
        cases hw.2
      obtain ⟨hmarks, hkept, hfound⟩ := ih (h.push hw.1 hnew)
      have hpush : order.toList <+: (order.push w).toList := by
        rw [Array.toList_push]
        exact List.prefix_append _ _
      refine ⟨hmarks, hpush.trans hkept, ?_⟩
      intro v hv hlt
      rcases List.mem_cons.mp hv with rfl | hv
      · refine (hmarks.mem v).mpr (hkept.subset ?_)
        simp
      · exact hfound v hv hlt
    · rw [if_neg hw]
      obtain ⟨hmarks, hkept, hfound⟩ := ih h
      refine ⟨hmarks, hkept, ?_⟩
      intro v hv hlt
      rcases List.mem_cons.mp hv with rfl | hv
      · -- it was marked before
        have hseen : v ∈ seen := by
          by_contra hnot
          exact hw ⟨hlt, Bool.eq_false_iff.mpr hnot⟩
        exact (hmarks.mem v).mpr (hkept.subset ((h.mem v).mp hseen))
      · exact hfound v hv hlt

/-- What is met was listed or found. -/
theorem mem_meet (found : List Nat) (h : w ∈ (meet n found order seen).1.toList) :
    w ∈ order.toList ∨ w ∈ found ∧ w < n := by
  induction found generalizing order seen with
  | nil => exact Or.inl h
  | cons v found ih =>
    unfold meet at h
    rw [List.foldl_cons] at h
    have htail : w ∈ found ∧ w < n → w ∈ v :: found ∧ w < n := And.imp_left (List.mem_cons_of_mem v)
    by_cases hv : v < n ∧ seen.contains v = false
    · rw [if_pos hv] at h
      rcases ih h with hw | hw
      · rw [Array.toList_push, List.mem_append, List.mem_singleton] at hw
        rcases hw with hw | rfl
        · exact Or.inl hw
        · exact Or.inr ⟨List.mem_cons_self, hv.1⟩
      · exact Or.inr (htail hw)
    · rw [if_neg hv] at h
      exact (ih h).imp_right htail

/-- Where all marked numbers were visited, they are closed. -/
theorem Marks.closed {i : Nat} (h : Marks n order seen) (hi : order.size ≤ i)
    (hdone : ∀ j < i, ∀ v, order.toList[j]? = some v → ∀ w ∈ next v, w < n → w ∈ seen) :
    ∀ v ∈ seen, ∀ w ∈ next v, w < n → w ∈ seen := by
  intro v hv
  obtain ⟨j, hj⟩ := List.mem_iff_getElem?.mp ((h.mem v).mp hv)
  have hlt : j < order.size := by simpa using (List.getElem?_eq_some_iff.mp hj).1
  exact hdone j (by omega) v hj

/-- With the numbers before position `i` visited, and fuel for the others, all of them are visited in
the end. -/
theorem visit_spec {fuel i : Nat} (h : Marks n order seen) (hfuel : n ≤ fuel + i)
    (hdone : ∀ j < i, ∀ v, order.toList[j]? = some v → ∀ w ∈ next v, w < n → w ∈ seen) :
    (∀ w ∈ seen, w ∈ (visit n next fuel i order seen).2) ∧
      ∀ v ∈ (visit n next fuel i order seen).2, ∀ w ∈ next v, w < n →
        w ∈ (visit n next fuel i order seen).2 := by
  induction fuel generalizing i order seen with
  | zero =>
    have hsize := h.size_le
    exact ⟨fun w hw => hw, h.closed (by omega) hdone⟩
  | succ fuel ih =>
    unfold visit
    cases hi : order[i]? with
    | none => exact ⟨fun w hw => hw, h.closed (Array.getElem?_eq_none_iff.mp hi) hdone⟩
    | some v =>
      obtain ⟨hmarks, hkept, hfound⟩ := meet_spec h (next v)
      have hkeep : ∀ w ∈ seen, w ∈ (meet n (next v) order seen).2 := fun w hw =>
        (hmarks.mem w).mpr (hkept.subset ((h.mem w).mp hw))
      have hsize : i < order.toList.length := by
        simpa using (Array.getElem?_eq_some_iff.mp hi).1
      -- the visited numbers stay at their positions
      have hvisited : ∀ j < i + 1, ∀ u, (meet n (next v) order seen).1.toList[j]? = some u →
          ∀ w ∈ next u, w < n → w ∈ (meet n (next v) order seen).2 := by
        intro j hj u hu w hw hlt
        obtain ⟨more, hmore⟩ := hkept
        rw [← hmore, List.getElem?_append_left (by omega)] at hu
        by_cases hji : j = i
        · subst hji
          rw [Array.getElem?_toList, hi] at hu
          cases hu
          exact hfound w hw hlt
        · exact hkeep w (hdone j (by omega) u hu w hw hlt)
      obtain ⟨hle, hclosed⟩ := ih hmarks (by omega) hvisited
      exact ⟨fun w hw => hle w (hkeep w hw), hclosed⟩

/-- Visits list more numbers, of which each is after one that is listed. -/
theorem visit_lists (next : Nat → List Nat) (fuel i : Nat) (h : Marks n order seen) :
    Marks n (visit n next fuel i order seen).1 (visit n next fuel i order seen).2 ∧
      order.toList <+: (visit n next fuel i order seen).1.toList ∧
      ∀ p : Nat → Prop, (∀ v ∈ order.toList, p v) → (∀ v w, p v → w ∈ next v → w < n → p w) →
        ∀ v ∈ (visit n next fuel i order seen).1.toList, p v := by
  induction fuel generalizing i order seen with
  | zero => exact ⟨h, List.prefix_refl _, fun p hp _ => hp⟩
  | succ fuel ih =>
    unfold visit
    cases hi : order[i]? with
    | none => exact ⟨h, List.prefix_refl _, fun p hp _ => hp⟩
    | some v =>
      obtain ⟨hmarks, hkept, -⟩ := meet_spec h (next v)
      obtain ⟨hmarks', hkept', hsound⟩ := ih (i + 1) hmarks
      refine ⟨hmarks', hkept.trans hkept', fun p hp hnext => hsound p (fun w hw => ?_) hnext⟩
      rcases mem_meet _ hw with hw | ⟨hw, hlt⟩
      · exact hp w hw
      · exact hnext v w (hp v (Array.mem_toList_iff.mpr (Array.mem_of_getElem? hi))) hw hlt

section

variable {start : List Nat}

theorem marks_start (start : List Nat) : Marks n (meet n start #[] ∅).1 (meet n start #[] ∅).2 ∧
    ∀ w ∈ start, w < n → w ∈ (meet n start #[] ∅).2 := by
  have hempty : Marks n #[] ∅ :=
    ⟨fun w => by simp, fun w hw => absurd hw List.not_mem_nil, List.nodup_nil⟩
  obtain ⟨hmarks, _, hstart⟩ := meet_spec hempty start
  exact ⟨hmarks, hstart⟩

theorem mem_reached_of_start (hv : v ∈ start) (hlt : v < n) : v ∈ reached n next start :=
  (visit_spec (marks_start start).1 (Nat.le_refl n) fun j hj => absurd hj (Nat.not_lt_zero j)).1 v
    ((marks_start start).2 v hv hlt)

theorem mem_reached_of_next (hv : v ∈ reached n next start) (hw : w ∈ next v) (hlt : w < n) :
    w ∈ reached n next start :=
  (visit_spec (marks_start start).1 (Nat.le_refl n) fun j hj => absurd hj (Nat.not_lt_zero j)).2 v hv w hw
    hlt

theorem nodup_order : (Explore.order n next start).Nodup := (visit_lists next n 0 (marks_start start).1).1.nodup

/-- A start that is a single number comes first. -/
theorem order_singleton (hv : v < n) : ∃ rest, Explore.order n next [v] = v :: rest := by
  have hnew : (∅ : IdSet).contains v = false := Bool.eq_false_iff.mpr (IdSet.not_mem_empty v)
  have hstart : (meet n [v] #[] ∅).1.toList = [v] := by simp [meet, hv, hnew]
  obtain ⟨rest, hrest⟩ := (visit_lists next n 0 (marks_start [v]).1).2.1
  rw [hstart] at hrest
  exact ⟨rest, hrest.symm⟩

/-- The numbers listed are those that are reached. -/
theorem mem_order_iff : v ∈ Explore.order n next start ↔
    ∃ s ∈ start, s < n ∧ Relation.ReflTransGen (fun v w => w ∈ next v ∧ w < n) s v := by
  obtain ⟨hmarks, -, hsound⟩ := visit_lists next n 0 (marks_start start).1
  constructor
  · refine hsound (fun v => ∃ s ∈ start, s < n ∧ Relation.ReflTransGen (fun v w => w ∈ next v ∧ w < n) s v)
      (fun w hw => ?_) ?_ v
    · rcases mem_meet _ hw with hw | ⟨hw, hlt⟩
      · exact absurd hw List.not_mem_nil
      · exact ⟨w, hw, hlt, .refl⟩
    · rintro v w ⟨s, hs, hlt, hreach⟩ hw hwlt
      exact ⟨s, hs, hlt, hreach.tail ⟨hw, hwlt⟩⟩
  · rintro ⟨s, hs, hlt, hreach⟩
    refine (hmarks.mem v).mp (?_ : v ∈ reached n next start)
    induction hreach with
    | refl => exact mem_reached_of_start hs hlt
    | tail _ hlast ih => exact mem_reached_of_next ih hlast.1 hlast.2

end

end WholeProgram.Explore
