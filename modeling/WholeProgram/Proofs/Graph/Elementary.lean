import Mathlib.Data.List.Chain
import Mathlib.Data.List.Cycle
import Mathlib.Logic.Relation
import Mathlib.Order.Lattice.Nat

/-!
# Elementary cycles of a relation

An elementary cycle is a cyclic order of distinct nodes in which each leads to the next.

* `Elementary.transGen`, `exists_elementary` — the nodes on elementary cycles are those that lead back to
  themselves;
* `Listed` — the list of a cycle from its least node to its least node; each elementary cycle has one,
  and no other (`Elementary.existsUnique_listed`).
-/

namespace WholeProgram.Graph

open Relation (ReflTransGen TransGen)

section

variable {α : Type} {r r' : α → α → Prop} {c : Cycle α} {rest : List α} {v w : α}

/-- Distinct nodes in a cyclic order, at least one, each of which leads to the next. -/
def Elementary (r : α → α → Prop) (c : Cycle α) : Prop := c ≠ Cycle.nil ∧ c.Nodup ∧ c.Chain r

theorem elementary_cons_iff : Elementary r (v :: rest : List α) ↔
    (v :: rest).Nodup ∧ List.IsChain r (v :: (rest ++ [v])) := by
  simp [Elementary]

/-- A cycle can be written from each of its nodes. -/
theorem exists_eq_cons_of_mem (h : v ∈ c) : ∃ rest, c = (v :: rest : List α) := by
  induction c using Quotient.inductionOn' with
  | _ l =>
    obtain ⟨s, t, rfl⟩ := List.append_of_mem (Cycle.mem_coe_iff.mp h)
    exact ⟨t ++ s, Cycle.coe_eq_coe.mpr List.isRotated_append⟩

theorem Elementary.exists_mem (h : Elementary r c) : ∃ v, v ∈ c := by
  induction c using Quotient.inductionOn' with
  | _ l =>
    obtain ⟨v, rest, rfl⟩ := List.exists_cons_of_ne_nil fun hnil => h.1 ((Cycle.coe_eq_nil l).mpr hnil)
    exact ⟨v, Cycle.mem_coe_iff.mpr List.mem_cons_self⟩

/-- A relation restricted to some nodes has the elementary cycles that stay within them. -/
theorem elementary_restrict_iff {p : α → Prop} (hr : ∀ u w, r' u w ↔ r u w ∧ p u ∧ p w) :
    Elementary r' c ↔ Elementary r c ∧ ∀ v ∈ c, p v := by
  constructor
  · refine fun h => ⟨⟨h.1, h.2.1, h.2.2.imp fun u w hs => ((hr u w).mp hs).1⟩, fun v hv => ?_⟩
    obtain ⟨rest, rfl⟩ := exists_eq_cons_of_mem hv
    have hchain := (elementary_cons_iff.mp h).2
    cases rest with
    | nil => exact ((hr v v).mp (List.isChain_cons_cons.mp hchain).1).2.1
    | cons w rest => exact ((hr v w).mp (List.isChain_cons_cons.mp hchain).1).2.1
  · rintro ⟨h, hp⟩
    obtain ⟨v, hv⟩ := h.exists_mem
    obtain ⟨rest, rfl⟩ := exists_eq_cons_of_mem hv
    have hmem : ∀ x ∈ v :: (rest ++ [v]), p x := by
      intro x hx
      refine hp x (Cycle.mem_coe_iff.mpr ?_)
      simp only [List.mem_cons, List.mem_append, List.not_mem_nil, or_false] at hx ⊢
      tauto
    obtain ⟨hnodup, hchain⟩ := elementary_cons_iff.mp h
    exact elementary_cons_iff.mpr ⟨hnodup,
      hchain.imp_of_mem_imp fun u w hu hw hs => (hr u w).mpr ⟨hs, hmem u hu, hmem w hw⟩⟩

/-! ## The nodes on cycles -/

theorem transGen_of_isChain (h : List.IsChain r (v :: (rest ++ [w]))) : TransGen r v w := by
  induction rest generalizing v with
  | nil => exact .single (List.isChain_cons_cons.mp h).1
  | cons u rest ih => exact .head (List.isChain_cons_cons.mp h).1 (ih (List.isChain_cons_cons.mp h).2)

theorem reflTransGen_of_isChain {u : α} (h : List.IsChain r (v :: (rest ++ [w]))) (hu : u ∈ rest) :
    ReflTransGen r v u ∧ ReflTransGen r u w := by
  obtain ⟨s, t, rfl⟩ := List.append_of_mem hu
  rw [List.append_assoc, List.cons_append, ← List.cons_append, List.isChain_split] at h
  exact ⟨(transGen_of_isChain h.1).to_reflTransGen, (transGen_of_isChain h.2).to_reflTransGen⟩

/-- The nodes of an elementary cycle lead back to themselves. -/
theorem Elementary.transGen (h : Elementary r c) (hv : v ∈ c) : TransGen r v v := by
  obtain ⟨rest, rfl⟩ := exists_eq_cons_of_mem hv
  exact transGen_of_isChain (elementary_cons_iff.mp h).2

/-- The nodes of an elementary cycle lead to each other. -/
theorem Elementary.reflTransGen (h : Elementary r c) (hv : v ∈ c) (hw : w ∈ c) : ReflTransGen r v w := by
  obtain ⟨rest, rfl⟩ := exists_eq_cons_of_mem hv
  rcases List.mem_cons.mp (Cycle.mem_coe_iff.mp hw) with rfl | hw
  · exact .refl
  · exact (reflTransGen_of_isChain (elementary_cons_iff.mp h).2 hw).1

/-- What leads to `w` leads there by a path that meets no node twice. -/
theorem exists_nodup_path (h : ReflTransGen r v w) :
    ∃ l : List α, (l ++ [w]).Nodup ∧ List.IsChain r (l ++ [w]) ∧ (l ++ [w]).head? = some v := by
  induction h using ReflTransGen.head_induction_on with
  | refl => exact ⟨[], List.nodup_singleton w, List.isChain_singleton w, rfl⟩
  | @head u v harc _ ih =>
    obtain ⟨l, hnodup, hchain, hhead⟩ := ih
    by_cases hu : u ∈ l ++ [w]
    · -- the path meets the node again: what comes before is left out
      rcases List.mem_append.mp hu with hu | hu
      · obtain ⟨s, t, rfl⟩ := List.append_of_mem hu
        rw [List.append_assoc] at hnodup hchain
        exact ⟨u :: t, hnodup.of_append_right, hchain.right_of_append, rfl⟩
      · obtain rfl := List.mem_singleton.mp hu
        exact ⟨[], List.nodup_singleton u, List.isChain_singleton u, rfl⟩
    · refine ⟨u :: l, List.nodup_cons.mpr ⟨hu, hnodup⟩, List.isChain_cons.mpr ⟨fun y hy => ?_, hchain⟩, rfl⟩
      obtain rfl := Option.some.inj (hhead.symm.trans hy)
      exact harc

/-- A node that leads back to itself is on an elementary cycle. -/
theorem exists_elementary (h : TransGen r v v) : ∃ c, Elementary r c ∧ v ∈ c := by
  obtain ⟨w, harc, hreach⟩ := TransGen.head'_iff.mp h
  obtain ⟨l, hnodup, hchain, hhead⟩ := exists_nodup_path hreach
  have hcons : (v :: l).Nodup := by
    rw [List.nodup_append'] at hnodup
    exact List.nodup_cons.mpr ⟨fun hv => hnodup.2.2 hv List.mem_cons_self, hnodup.1⟩
  refine ⟨(v :: l : List α), elementary_cons_iff.mpr ⟨hcons, List.isChain_cons.mpr ⟨fun y hy => ?_, hchain⟩⟩,
    Cycle.mem_coe_iff.mpr List.mem_cons_self⟩
  obtain rfl := Option.some.inj (hhead.symm.trans hy)
  exact harc

end

/-! ## Listed cycles -/

variable {r : Nat → Nat → Prop} {c : Cycle Nat} {l l' : List Nat}

/-- The list goes from the least node of an elementary cycle to the least node. -/
def Listed (r : Nat → Nat → Prop) (l : List Nat) : Prop :=
  ∃ v rest, l = v :: (rest ++ [v]) ∧ (∀ w ∈ rest, v < w) ∧ Elementary r (v :: rest : List Nat)

/-- The cycle of a list that comes back to its first node. -/
def cycleOf (l : List Nat) : Cycle Nat := (l.dropLast : List Nat)

@[simp]
theorem cycleOf_cons (v : Nat) (rest : List Nat) :
    cycleOf (v :: (rest ++ [v])) = (v :: rest : List Nat) := by
  unfold cycleOf
  rw [← List.cons_append, List.dropLast_concat]

theorem Listed.elementary (h : Listed r l) : Elementary r (cycleOf l) := by
  obtain ⟨v, rest, rfl, -, h⟩ := h
  rwa [cycleOf_cons]

/-- The first node of a listed cycle leads back to itself. -/
theorem Listed.transGen (h : Listed r l) : TransGen r (l.headD 0) (l.headD 0) := by
  obtain ⟨v, rest, rfl, -, h⟩ := h
  exact h.transGen (Cycle.mem_coe_iff.mpr List.mem_cons_self)

/-- A cycle of distinct nodes can be written from each of them in one way. -/
theorem cons_injective_of_nodup {α : Type} {v : α} {rest rest' : List α} (hnodup : (v :: rest).Nodup)
    (h : ((v :: rest : List α) : Cycle α) = (v :: rest' : List α)) : rest = rest' := by
  obtain ⟨n, hn, hrotate⟩ := List.isRotated_iff_mod.mp (Cycle.coe_eq_coe.mp h)
  rw [List.rotate_eq_drop_append_take hn] at hrotate
  rw [← List.take_append_drop n (v :: rest)] at hnodup
  cases hdrop : (v :: rest).drop n with
  | nil =>
    have htake := List.take_append_drop n (v :: rest)
    rw [hdrop, List.append_nil] at htake
    rw [hdrop, htake, List.nil_append] at hrotate
    exact (List.cons.inj hrotate).2
  | cons u t =>
    cases n with
    | zero =>
      rw [List.drop_zero, List.take_zero, List.append_nil] at hrotate
      exact (List.cons.inj hrotate).2
    | succ n =>
      -- the node would be in both parts of the list
      rw [hdrop] at hrotate hnodup
      obtain ⟨rfl, -⟩ := List.cons.inj hrotate
      have hdisjoint := (List.nodup_append'.mp hnodup).2.2
      exact absurd List.mem_cons_self (hdisjoint (by rw [List.take_succ_cons]; exact List.mem_cons_self))

/-- An elementary cycle is listed from its least node, and from no other. -/
theorem Elementary.existsUnique_listed (h : Elementary r c) : ∃! l, Listed r l ∧ cycleOf l = c := by
  classical
  have hleast := Nat.find_spec h.exists_mem
  generalize hv : Nat.find h.exists_mem = v at hleast
  have hle : ∀ w ∈ c, v ≤ w := fun w hw => hv ▸ Nat.find_min' h.exists_mem hw
  obtain ⟨rest, rfl⟩ := exists_eq_cons_of_mem hleast
  have hlt : ∀ w ∈ rest, v < w := by
    intro w hw
    refine Nat.lt_of_le_of_ne (hle w (Cycle.mem_coe_iff.mpr (List.mem_cons_of_mem v hw))) ?_
    rintro rfl
    exact (List.nodup_cons.mp (elementary_cons_iff.mp h).1).1 hw
  refine ⟨v :: (rest ++ [v]), ⟨⟨v, rest, rfl, hlt, h⟩, cycleOf_cons v rest⟩, ?_⟩
  rintro l ⟨⟨v', rest', rfl, hlt', h'⟩, hcycle⟩
  rw [cycleOf_cons] at hcycle
  have hmem : ∀ w, w ∈ v' :: rest' ↔ w ∈ v :: rest := fun w => by
    rw [← Cycle.mem_coe_iff, hcycle, Cycle.mem_coe_iff]
  -- both start with the least node
  have hsame : v' = v := by
    have hge : v ≤ v' := hle v' (Cycle.mem_coe_iff.mpr ((hmem v').mp List.mem_cons_self))
    rcases List.mem_cons.mp ((hmem v).mpr List.mem_cons_self) with heq | hv
    · exact heq.symm
    · exact absurd (hlt' v hv) (Nat.not_lt.mpr hge)
  subst hsame
  rw [cons_injective_of_nodup (elementary_cons_iff.mp h').1 hcycle]

/-- The list has the nodes of its cycle. -/
theorem Listed.mem_cycleOf (h : Listed r l) {v : Nat} : v ∈ cycleOf l ↔ v ∈ l := by
  obtain ⟨u, rest, rfl, -, -⟩ := h
  rw [cycleOf_cons, Cycle.mem_coe_iff]
  simp only [List.mem_cons, List.mem_append, List.not_mem_nil, or_false]
  tauto

/-- The nodes of listed cycles are those that lead back to themselves. -/
theorem exists_listed_iff {v : Nat} : (∃ l, Listed r l ∧ v ∈ l) ↔ TransGen r v v := by
  constructor
  · rintro ⟨l, h, hv⟩
    exact h.elementary.transGen (h.mem_cycleOf.mpr hv)
  · intro h
    obtain ⟨c, hc, hv⟩ := exists_elementary h
    obtain ⟨l, ⟨hl, rfl⟩, -⟩ := hc.existsUnique_listed
    exact ⟨l, hl, hl.mem_cycleOf.mp hv⟩

end WholeProgram.Graph
