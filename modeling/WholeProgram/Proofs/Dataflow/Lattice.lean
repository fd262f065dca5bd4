import Mathlib.Order.Bounds.Basic
import Mathlib.Order.Lattice
import WholeProgram.Dataflow.Fact
import WholeProgram.Proofs.Data.IdSet

/-!
# The lattices of facts

Values, facts about constants and sets of numbers are ordered by how much they allow, and joining is
the least upper bound:

* `Fact.get_update`, `Fact.get_join` — what an operation does to the value of each variable; facts are
  compared variable by variable, and those with the same values are equal (`Fact.ext_get`);
* `Value.binary_mono` — the abstract operators are monotone;
* `isLUB_foldl_sup` — joining along a list gives the least upper bound of its members.
-/

namespace WholeProgram

/-! ## Values -/

namespace Value

instance : LE Value := ⟨fun a b => a.le b = true⟩

theorem le_def {a b : Value} : a ≤ b ↔ a = undefined ∨ b = nac ∨ a = b := by
  show a.le b = true ↔ _
  cases a <;> cases b <;> simp [Value.le, isUndefined, isNac]

instance : SemilatticeSup Value where
  le_refl a := le_def.mpr (Or.inr (Or.inr rfl))
  le_trans a b c hab hbc := by
    rw [le_def] at hab hbc ⊢
    rcases hab with ha | hb | rfl
    · exact Or.inl ha
    · subst hb
      rcases hbc with h | h | h
      · cases h
      · exact Or.inr (Or.inl h)
      · exact Or.inr (Or.inl h.symm)
    · exact hbc
  le_antisymm a b hab hba := by
    rw [le_def] at hab hba
    rcases hab with rfl | rfl | h
    · rcases hba with h | h | h
      · exact h.symm
      · cases h
      · exact h.symm
    · rcases hba with h | h | h
      · cases h
      · exact h
      · exact h.symm
    · exact h
  sup := join
  le_sup_left a b := by
    rw [le_def]
    cases a <;> cases b <;> simp [join, em']
  le_sup_right a b := by
    rw [le_def]
    cases a <;> cases b <;> simp [join]
    split <;> simp_all
  sup_le a b c hac hbc := by
    rw [le_def] at hac hbc ⊢
    cases a <;> cases b <;> simp_all [join]
    rcases hac with hc | rfl
    · exact Or.inr (Or.inl hc)
    · rcases hbc with h | h <;> simp_all

instance : OrderBot Value where
  bot := undefined
  bot_le _ := le_def.mpr (Or.inl rfl)

theorem join_eq_sup (a b : Value) : a.join b = a ⊔ b := rfl

@[simp]
theorem undefined_le (a : Value) : undefined ≤ a := le_def.mpr (Or.inl rfl)

@[simp]
theorem le_nac (a : Value) : a ≤ nac := le_def.mpr (Or.inr (Or.inl rfl))

theorem eq_undefined_of_le {a : Value} (h : a ≤ undefined) : a = undefined := by
  rcases le_def.mp h with h | h | h
  · exact h
  · cases h
  · exact h

/-- Only a constant itself and `nac` are above a constant. -/
theorem const_le {c : Int64} {a : Value} (h : const c ≤ a) : a = const c ∨ a = nac := by
  rcases le_def.mp h with h | h | h
  · cases h
  · exact Or.inr h
  · exact Or.inl h.symm

/-- How far up a value is. -/
def level : Value → Nat
  | undefined => 0
  | const _ => 1
  | nac => 2

theorem level_le_two (a : Value) : a.level ≤ 2 := by
  cases a <;> simp [level]

theorem level_mono {a b : Value} (h : a ≤ b) : a.level ≤ b.level := by
  rcases le_def.mp h with rfl | rfl | rfl
  · exact Nat.zero_le _
  · exact level_le_two a
  · exact Nat.le_refl _

theorem level_lt {a b : Value} (h : a ≤ b) (hne : a ≠ b) : a.level < b.level := by
  rcases le_def.mp h with rfl | rfl | rfl
  · cases b with
    | undefined => exact absurd rfl hne
    | const | nac => simp [level]
  · cases a with
    | nac => exact absurd rfl hne
    | const | undefined => simp [level]
  · exact absurd rfl hne

/-- More values of the operands give more values of the result. -/
theorem binary_mono (op : BinaryOp) {a b c d : Value} (hab : a ≤ b) (hcd : c ≤ d) :
    binary op a c ≤ binary op b d := by
  cases a with
  | undefined =>
    -- an undefined operand leaves the result undefined, unless the other one is no constant
    cases c with
    | nac =>
      rcases le_def.mp hcd with h | rfl | rfl
      · cases h
      · cases b <;> simp [binary]
      · cases b <;> simp [binary]
    | undefined | const => exact undefined_le _
  | nac =>
    rcases le_def.mp hab with h | rfl | rfl
    · cases h
    · cases d <;> simp [binary]
    · cases d <;> simp [binary]
  | const x =>
    rcases const_le hab with rfl | rfl
    · cases c with
      | undefined => exact undefined_le _
      | const y =>
        rcases const_le hcd with rfl | rfl
        · exact le_refl _
        · simp [binary]
      | nac =>
        rcases le_def.mp hcd with h | rfl | rfl
        · cases h
        · simp [binary]
        · simp [binary]
    · cases d <;> simp [binary]

end Value

/-! ## Facts -/

namespace Fact

variable {f g : Fact} {v w : VarId}

@[simp]
theorem get_empty (v : VarId) : empty.get v = .undefined := by
  simp [get, empty]

/-- Facts with the same values are equal. -/
theorem ext_get (h : ∀ v, f.get v = g.get v) : f = g := by
  obtain ⟨f⟩ := f
  obtain ⟨g⟩ := g
  congr 1
  apply Std.ExtTreeMap.ext_getElem?
  intro v
  have hv := h v
  simp only [get] at hv
  cases hf : f[v]? with
  | none =>
    cases hg : g[v]? with
    | none => rfl
    | some k => cases k <;> simp [hf, hg, Known.value] at hv
  | some k =>
    cases hg : g[v]? with
    | none => cases k <;> simp [hf, hg, Known.value] at hv
    | some l => cases k <;> cases l <;> simp_all [Known.value]

theorem get_update (f : Fact) (v w : VarId) (a : Value) :
    (f.update v a).get w = if v = w then a else f.get w := by
  by_cases hvw : v = w
  · subst hvw
    cases a <;> simp [update, get, Known.value]
  · cases a <;>
      simp [update, get, hvw, Std.ExtTreeMap.getElem?_insert, Std.ExtTreeMap.getElem?_erase]

@[simp]
theorem get_update_self (f : Fact) (v : VarId) (a : Value) : (f.update v a).get v = a := by
  rw [get_update, if_pos rfl]

theorem get_update_of_ne (f : Fact) (a : Value) (h : v ≠ w) :
    (f.update v a).get w = f.get w := by
  rw [get_update, if_neg h]

theorem mem_toList {b : VarId × Value} (h : b ∈ f.toList) : f.get b.1 = b.2 := by
  obtain ⟨⟨v, k⟩, hk, rfl⟩ := List.mem_map.mp h
  have hv := Std.ExtTreeMap.mem_toList_iff_getElem?_eq_some.mp hk
  simp [get, hv]

theorem exists_mem_toList (h : f.get v ≠ .undefined) : (v, f.get v) ∈ f.toList := by
  unfold get at h ⊢
  cases hk : f.map[v]? with
  | none => simp [hk] at h
  | some k => exact List.mem_map.mpr ⟨(v, k), Std.ExtTreeMap.mem_toList_iff_getElem?_eq_some.mpr hk, rfl⟩

/-- The bindings of a fact are about different variables. -/
theorem pairwise_toList (f : Fact) : f.toList.Pairwise fun a b => a.1 ≠ b.1 := by
  refine List.pairwise_map.mpr (Std.ExtTreeMap.distinct_keys_toList.imp fun h => ?_)
  simpa using h

/-- Joining binding after binding changes the bound variables only, each once. -/
theorem get_foldl_join {bs : List (VarId × Value)} (hbs : bs.Pairwise fun a b => a.1 ≠ b.1)
    (g : Fact) (v : VarId) :
    (bs.foldl (fun acc b => acc.update b.1 (b.2.join (acc.get b.1))) g).get v =
      match bs.find? (·.1 = v) with
      | some b => b.2.join (g.get v)
      | none => g.get v := by
  induction bs generalizing g with
  | nil => rfl
  | cons b bs ih =>
    obtain ⟨hb, hbs⟩ := List.pairwise_cons.mp hbs
    rw [List.foldl_cons, ih hbs, List.find?_cons]
    by_cases hv : b.1 = v
    · -- the variable of this binding has no other
      have hnone : bs.find? (·.1 = v) = none := by
        rw [List.find?_eq_none]
        intro c hc
        simpa using fun h => hb c hc (hv.trans h.symm)
      simp [hnone, hv]
    · simp [hv, get_update_of_ne]

@[simp]
theorem get_join (f g : Fact) (v : VarId) : (f.join g).get v = (f.get v).join (g.get v) := by
  rw [join, get_foldl_join (pairwise_toList f)]
  cases hfind : f.toList.find? (·.1 = v) with
  | some b =>
    have hb := mem_toList (List.mem_of_find?_eq_some hfind)
    have hv : b.1 = v := by simpa using List.find?_some hfind
    rw [hv] at hb
    rw [hb]
  | none =>
    -- a variable without a binding is undefined
    have hv : f.get v = .undefined := by
      by_contra hne
      have := List.find?_eq_none.mp hfind _ (exists_mem_toList hne)
      simp at this
    rw [hv]
    exact (bot_sup_eq (g.get v)).symm

instance : LE Fact := ⟨fun f g => ∀ v, f.get v ≤ g.get v⟩

theorem le_def : f ≤ g ↔ ∀ v, f.get v ≤ g.get v := Iff.rfl

instance : SemilatticeSup Fact where
  le_refl _ _ := le_refl _
  le_trans _ _ _ hfg hgh v := (hfg v).trans (hgh v)
  le_antisymm _ _ hfg hgf := ext_get fun v => le_antisymm (hfg v) (hgf v)
  sup := join
  le_sup_left f g v := by
    rw [get_join]
    exact le_sup_left
  le_sup_right f g v := by
    rw [get_join]
    exact le_sup_right
  sup_le f g h hfh hgh v := by
    rw [get_join]
    exact sup_le (hfh v) (hgh v)

instance : OrderBot Fact where
  bot := empty
  bot_le f v := by
    rw [get_empty]
    exact Value.undefined_le _

theorem join_eq_sup (f g : Fact) : f.join g = f ⊔ g := rfl

theorem update_mono {a b : Value} (v : VarId) (hfg : f ≤ g) (hab : a ≤ b) :
    f.update v a ≤ g.update v b := by
  intro w
  rw [get_update, get_update]
  split
  · exact hab
  · exact hfg w

end Fact

/-! ## Sets of numbers -/

namespace IdSet

variable {s t : IdSet}

instance : LE IdSet := ⟨fun s t => ∀ i, i ∈ s → i ∈ t⟩

theorem le_def : s ≤ t ↔ ∀ i, i ∈ s → i ∈ t := Iff.rfl

instance : SemilatticeSup IdSet where
  le_refl _ _ hi := hi
  le_trans _ _ _ hst htu i hi := htu i (hst i hi)
  le_antisymm _ _ hst hts := ext fun i => ⟨hst i, hts i⟩
  sup := union
  le_sup_left _ _ _ hi := (mem_union _ _ _).mpr (Or.inl hi)
  le_sup_right _ _ _ hi := (mem_union _ _ _).mpr (Or.inr hi)
  sup_le _ _ _ hsu htu i hi := ((mem_union _ _ _).mp hi).elim (hsu i) (htu i)

instance : OrderBot IdSet where
  bot := ∅
  bot_le _ i hi := absurd hi (not_mem_empty i)

end IdSet

/-! ## Joins along a list -/

section

variable {α ι : Type} [SemilatticeSup α]

theorem foldl_sup_le_iff (f : ι → α) (l : List ι) (a b : α) :
    l.foldl (fun acc k => acc ⊔ f k) a ≤ b ↔ a ≤ b ∧ ∀ k ∈ l, f k ≤ b := by
  induction l generalizing a with
  | nil => simp
  | cons k l ih =>
    rw [List.foldl_cons, ih, sup_le_iff]
    simp only [List.mem_cons, forall_eq_or_imp]
    tauto

theorem foldl_sup_mono {f g : ι → α} (l : List ι) (h : ∀ k ∈ l, f k ≤ g k) [OrderBot α] :
    l.foldl (fun acc k => acc ⊔ f k) ⊥ ≤ l.foldl (fun acc k => acc ⊔ g k) ⊥ := by
  have hg := (foldl_sup_le_iff g l ⊥ _).mp le_rfl
  exact (foldl_sup_le_iff f l ⊥ _).mpr ⟨bot_le, fun k hk => (h k hk).trans (hg.2 k hk)⟩

theorem foldl_sup_congr [OrderBot α] {f g : ι → α} {l : List ι} (h : ∀ k ∈ l, f k = g k) :
    l.foldl (fun acc k => acc ⊔ f k) ⊥ = l.foldl (fun acc k => acc ⊔ g k) ⊥ :=
  le_antisymm (foldl_sup_mono l fun k hk => (h k hk).le) (foldl_sup_mono l fun k hk => (h k hk).ge)

/-- What holds of the bottom and of joins holds of a join along a list. -/
theorem foldl_sup_induction [OrderBot α] {P : α → Prop} (hbot : P ⊥)
    (hsup : ∀ {a b}, P a → P b → P (a ⊔ b)) {f : ι → α} (l : List ι) (h : ∀ k ∈ l, P (f k)) :
    P (l.foldl (fun acc k => acc ⊔ f k) ⊥) := by
  exact List.foldlRecOn l _ hbot fun acc hacc k hk => hsup hacc (h k hk)

/-- Joining along a list gives the least upper bound of its members. -/
theorem isLUB_foldl_sup [OrderBot α] (f : ι → α) (l : List ι) :
    IsLUB {a | ∃ k ∈ l, f k = a} (l.foldl (fun acc k => acc ⊔ f k) ⊥) := by
  rw [isLUB_iff_le_iff]
  intro b
  rw [foldl_sup_le_iff]
  constructor
  · rintro ⟨-, h⟩ a ⟨k, hk, rfl⟩
    exact h k hk
  · intro h
    exact ⟨bot_le, fun k hk => h ⟨k, hk, rfl⟩⟩

end

end WholeProgram
