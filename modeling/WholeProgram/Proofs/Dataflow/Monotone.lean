import WholeProgram.Proofs.Dataflow.Aliases

/-!
# Constants grow with what is known before

The join of two values, and of two facts, is their least upper bound, and everything that the analyses of
constants do with facts is monotone: the statements, the edges between methods, and the question whether
two index values may be the same (`constants_monotone`). So no analysis can come back to a fact that it
has left behind.
-/

namespace WholeProgram

theorem Value.isLUB_join (a b : Value) : IsLUB {a, b} (a.join b) := isLUB_pair

namespace Fact

theorem isLUB_join (f g : Fact) : IsLUB {f, g} (f.join g) := isLUB_pair

/-- Facts are joined variable by variable. -/
theorem isLUB_get_join (f g : Fact) (v : VarId) : IsLUB {f.get v, g.get v} ((f.join g).get v) := by
  rw [get_join]
  exact Value.isLUB_join _ _

end Fact

/-- Values and facts form lattices, and what is computed from them is monotone. A statement whose operator
exists has an effect on every fact. -/
theorem constants_monotone :
    (∀ a b : Value, (a ≤ b ↔ a.le b = true) ∧ IsLUB {a, b} (a.join b)) ∧
    (∀ a b c : Value, a.join b = b.join a ∧ (a.join b).join c = a.join (b.join c) ∧ a.join a = a) ∧
    (∀ f g : Fact, (f ≤ g ↔ ∀ v, f.get v ≤ g.get v) ∧ IsLUB {f, g} (f.join g) ∧
      ∀ v, IsLUB {f.get v, g.get v} ((f.join g).get v)) ∧
    (∀ (p : Program) (s : Stmt Nat), (∀ x op y z, s = .binary x op y z → op.isDeclared = true) →
      (∀ f, Constants.fault p s f = none) ∧ Monotone (Constants.transfer p s)) ∧
    (∀ (p : Program) (g : Supergraph) (link : Link), Monotone (Interprocedural.flow p g link)) ∧
    ∀ a a' b b' : Value, a ≤ a' → b ≤ b' →
      Aliases.indexMayAlias a b = true → Aliases.indexMayAlias a' b' = true := by
  refine ⟨fun a b => ⟨Iff.rfl, a.isLUB_join b⟩, fun a b c => ⟨sup_comm a b, sup_assoc a b c, sup_idem a⟩,
    fun f g => ⟨Fact.le_def, f.isLUB_join g, f.isLUB_get_join g⟩, fun p s hs => ⟨?_, ?_⟩, ?_, ?_⟩
  · exact Constants.fault_of_declared hs
  · exact fun f g h => Constants.transfer_mono p s h
  · exact fun p g link f f' h => Interprocedural.flow_mono link h
  · exact fun a a' b b' ha hb h => Aliases.indexMayAlias_mono ha hb h

/-- The first operand is no constant any more, and the second one, of which nothing was known, is zero. -/
theorem constants_monotone_quotient :
    Constants.fault Countdown.program (.binary 2 .div 0 1) (Fact.empty.update 0 (.const 6)) = none ∧
    Constants.transfer Countdown.program (.binary 2 .div 0 1) (Fact.empty.update 0 (.const 6)) ≤
      Constants.transfer Countdown.program (.binary 2 .div 0 1)
        ((Fact.empty.update 0 .nac).update 1 (.const 0)) ∧
    Aliases.indexMayAlias (.const 6) .nac = true := by
  obtain ⟨-, -, -, hstmt, -, hindex⟩ := constants_monotone
  obtain ⟨hfault, hmono⟩ := hstmt Countdown.program (.binary 2 .div 0 1) (by rintro x op y z ⟨⟩; rfl)
  have hle : Fact.empty.update 0 (.const 6) ≤ (Fact.empty.update 0 .nac).update 1 (.const 0) := by
    intro v
    rw [Fact.get_update, Fact.get_update, Fact.get_update, Fact.get_empty]
    split
    · rename_i hv
      subst hv
      simp
    · simp
  exact ⟨hfault _, hmono hle, hindex (.const 6) (.const 6) (.const 6) .nac le_rfl (Value.le_nac _) rfl⟩

end WholeProgram
