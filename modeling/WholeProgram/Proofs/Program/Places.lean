import Mathlib.Data.List.Basic
import WholeProgram.Program.Basic

/-!
# Places in a program

What the views of a program list: the statements of a method, its variables to return, its call sites, and
the statements through a variable.
-/

namespace WholeProgram

theorem Stmt.eq_invoke_of_call? {stmt : Stmt Nat} {call : Call} (h : stmt.call? = some call) :
    ∃ x, stmt = .invoke x call := by
  cases stmt with
  | invoke x c =>
    obtain rfl := Option.some.inj h
    exact ⟨x, rfl⟩
  | nop | literal | copy | binary | new | loadField | storeField | loadArray | storeArray
  | branch | jump | switch | ret | unknown => cases h

/-- What a fold collects: if every step adds what is true of its element, the whole adds what is
true of some element. -/
theorem foldl_collects {σ α : Type} {g : σ → α → σ} {P : σ → Prop} {Q : α → Prop}
    (hstep : ∀ acc a, P (g acc a) ↔ P acc ∨ Q a) (as : List α) (acc : σ) :
    P (as.foldl g acc) ↔ P acc ∨ ∃ a ∈ as, Q a := by
  induction as generalizing acc with
  | nil => simp
  | cons a as ih =>
    rw [List.foldl_cons, ih, hstep]
    simp only [List.mem_cons, exists_eq_or_imp, or_assoc]

/-! ## Methods -/

theorem Method.stmt?_lt_size {m : Method} {i : Nat} {s : Stmt Nat} (h : m.stmt? i = some s) :
    i < m.body.size := by
  by_contra hlt
  have hnone : m.stmt? i = none := by
    simp only [Method.stmt?, Option.map_eq_none_iff, Array.getElem?_eq_none_iff]
    omega
  rw [hnone] at h
  cases h

theorem Method.mem_positions {m : Method} {q : Stmt Nat → Bool} {i : Nat} :
    i ∈ m.positions q ↔ ∃ s, m.stmt? i = some s ∧ q s = true := by
  simp only [Method.positions, List.mem_filter, List.mem_range, Option.any_eq_true]
  constructor
  · exact fun h => h.2
  · rintro ⟨s, hs, hq⟩
    exact ⟨Method.stmt?_lt_size hs, s, hs, hq⟩

/-- A node that does something is that of a statement. -/
theorem Method.exists_stmt?_of_stmtAt {m : Method} {n : Nat} {s : Stmt Nat} (h : m.stmtAt n = s)
    (hs : s ≠ .nop) : ∃ i, n = i + 1 ∧ m.stmt? i = some s := by
  cases n with
  | zero => exact absurd h.symm hs
  | succ i =>
    refine ⟨i, rfl, ?_⟩
    rw [stmtAt] at h
    cases hi : m.stmt? i with
    | none =>
      rw [hi] at h
      exact absurd h.symm hs
    | some t =>
      rw [hi] at h
      exact congrArg some h

/-- It is that of an instruction of the body. -/
theorem Method.exists_instr_of_stmtAt {m : Method} {n : Nat} (h : m.stmtAt n ≠ .nop) :
    ∃ i ∈ m.body.toList, i.stmt = m.stmtAt n := by
  cases n with
  | zero => exact absurd rfl h
  | succ k =>
    simp only [stmtAt, stmt?] at h ⊢
    cases hk : m.body[k]? with
    | none =>
      rw [hk] at h
      exact absurd rfl h
    | some i => exact ⟨i, Array.mem_toList_iff.mpr (Array.mem_of_getElem? hk), rfl⟩

/-- The returned variables are those of the return statements. -/
theorem Method.mem_returnVars {m : Method} {v : VarId} :
    v ∈ m.returnVars ↔ ∃ i, m.stmt? i = some (.ret (some v)) := by
  unfold Method.returnVars
  rw [foldl_collects (P := (v ∈ ·)) (Q := fun i : Instr => i.stmt = .ret (some v))]
  · simp only [List.not_mem_nil, false_or, Method.stmt?, Option.map_eq_some_iff]
    constructor
    · rintro ⟨i, hi, hs⟩
      obtain ⟨n, hn⟩ := Array.mem_iff_getElem?.mp (Array.mem_toList_iff.mp hi)
      exact ⟨n, i, hn, hs⟩
    · rintro ⟨n, i, hn, hs⟩
      exact ⟨i, Array.mem_toList_iff.mpr (Array.mem_of_getElem? hn), hs⟩
  · intro acc i
    split
    · rename_i w hw
      by_cases hmem : w ∈ acc
      · simp only [List.contains_iff_mem, hmem, if_true, hw, Stmt.ret.injEq, Option.some.injEq]
        exact ⟨Or.inl, fun h => h.elim id fun heq => heq ▸ hmem⟩
      · simp [hmem, hw, eq_comm]
    · rename_i hno
      exact ⟨Or.inl, fun h => h.elim id fun heq => (hno v heq).elim⟩

/-! ## Programs -/

/-- A method outside the table has nothing in it. -/
theorem Program.method_eq_default {p : Program} {m : MethodId} (h : p.methods.size ≤ m) :
    p.method m = default := by
  simp only [Program.method, Array.getD_eq_getD_getElem?]
  rw [Array.getElem?_eq_none h]
  rfl

theorem Program.stmt?_lt {p : Program} {site : Site} {s : Stmt Nat} (h : p.stmt? site = some s) :
    site.method < p.methods.size := by
  by_contra hlt
  rw [Program.stmt?, Program.method_eq_default (Nat.le_of_not_lt hlt)] at h
  cases h

/-- What is no method of the program is an empty one. -/
theorem Program.method_mem_or_default (p : Program) (m : MethodId) :
    p.method m ∈ p.methods.toList ∨ p.method m = default := by
  rw [method, Array.getD_eq_getD_getElem?]
  cases hm : p.methods[m]? with
  | none => exact Or.inr rfl
  | some d => exact Or.inl (Array.mem_toList_iff.mpr (Array.mem_of_getElem? hm))

/-- A node of a program that does something is that of an instruction of one of its methods. -/
theorem Program.exists_instr_of_stmtAt {p : Program} {n : Node} (h : p.stmtAt n ≠ .nop) :
    ∃ m ∈ p.methods.toList, ∃ i ∈ m.body.toList, i.stmt = p.stmtAt n := by
  rcases p.method_mem_or_default n.method with hm | hm
  · exact ⟨_, hm, Method.exists_instr_of_stmtAt h⟩
  · obtain ⟨i, hi, -⟩ := Method.exists_instr_of_stmtAt h
    rw [hm] at hi
    cases hi

/-- The statements through a variable are found wherever they stand. -/
theorem Program.mem_sitesThrough {p : Program} {v : VarId} {site : Site} :
    site ∈ p.sitesThrough v ↔ ∃ s, p.stmt? site = some s ∧ s.base? = some v := by
  simp only [Program.sitesThrough, List.mem_flatMap, List.mem_range, List.mem_map]
  constructor
  · rintro ⟨m, _, i, hi, rfl⟩
    obtain ⟨s, hs, hb⟩ := Method.mem_positions.mp hi
    exact ⟨s, hs, by simpa using hb⟩
  · rintro ⟨s, hs, hb⟩
    refine ⟨site.method, Program.stmt?_lt hs, site.index, ?_, rfl⟩
    exact Method.mem_positions.mpr ⟨s, hs, by simpa using hb⟩

theorem Program.stmtAt_node (p : Program) (s : Site) : p.stmtAt s.node = (p.stmt? s).getD .nop := rfl

theorem Program.callAt?_eq (p : Program) (s : Site) : p.callAt? s = (p.stmtAt s.node).call? := by
  rw [stmtAt_node, callAt?]
  cases p.stmt? s <;> rfl

/-- The statement of a call site is a call. -/
theorem Program.stmt?_of_callAt? {p : Program} {s : Site} {call : Call} (h : p.callAt? s = some call) :
    ∃ x, p.stmt? s = some (.invoke x call) := by
  obtain ⟨stmt, hstmt, hcall⟩ := Option.bind_eq_some_iff.mp h
  obtain ⟨x, rfl⟩ := Stmt.eq_invoke_of_call? hcall
  exact ⟨x, hstmt⟩

theorem Program.resultOf?_eq (p : Program) (s : Site) : p.resultOf? s = (p.stmtAt s.node).defined? := by
  rw [stmtAt_node, resultOf?]
  cases p.stmt? s <;> rfl

/-- The call sites of a method are the places of its calls. -/
theorem Program.mem_sitesIn {p : Program} {s : Site} {m : MethodId} :
    s ∈ p.sitesIn m ↔ s.method = m ∧ (p.callAt? s).isSome = true := by
  obtain ⟨k, i⟩ := s
  simp only [sitesIn, Method.callSites, List.mem_map, Method.mem_positions, Site.mk.injEq, callAt?,
    stmt?]
  constructor
  · rintro ⟨i, ⟨t, hs, hcall⟩, rfl, rfl⟩
    exact ⟨rfl, by rwa [hs]⟩
  · rintro ⟨rfl, hcall⟩
    cases hs : (p.method k).stmt? i with
    | none =>
      rw [hs] at hcall
      cases hcall
    | some t =>
      rw [hs] at hcall
      exact ⟨i, ⟨t, hs, hcall⟩, rfl, rfl⟩

/-- The statements of a program with their places. -/
def Program.statements (p : Program) : List (Site × Stmt Nat) :=
  (List.range p.methods.size).flatMap fun m =>
    (p.method m).body.toList.zipIdx.map fun i => (⟨m, i.2⟩, i.1.stmt)

theorem Program.mem_statements {p : Program} {site : Site} {s : Stmt Nat}
    (h : p.stmt? site = some s) :
    (site, s) ∈ p.statements := by
  obtain ⟨i, hi, rfl⟩ := Option.map_eq_some_iff.mp h
  refine List.mem_flatMap.mpr ⟨site.method, List.mem_range.mpr (Program.stmt?_lt h), ?_⟩
  refine List.mem_map.mpr ⟨(i, site.index), ?_, rfl⟩
  rw [List.mk_mem_zipIdx_iff_getElem?, Array.getElem?_toList]
  exact hi

end WholeProgram
