import Mathlib.Data.List.Pairwise
import WholeProgram.Proofs.Lowering.Copies

/-!
# Phis

Lowering takes the phis of a block out of the way in two copies. Here is what these do in a run of the
method: wherever control goes from one block to another, all phis of the latter get the values that their
operands had, at once.

* `Along` — a run along a path of blocks;
* `Assigned` — what happens between the end of a block and the instructions of the next one;
* `phis_parallel` — so it happens along every path of a function.
-/

namespace WholeProgram.Lowering

open Moves (Store Config Effect Effects Step First Crosses At)
open Ssa (TypeId FuncId GlobalId ValueId BlockId Operand Instruction Block Func)

variable {α : Type} {lit : Int64 → α} {nothing : α} {S : Setting} {f : Func} {m : MethodId} {s : State} {p : Point}
  {k : Nat} {seg : List (Stmt Label)} {b t : BlockId}

/-! ## The finished method -/

/-- The method when nothing is added any more. -/
def Point.finished (p : Point) : Method := (p.draft?.getD default).close.toMethod

/-- The statement that a label stands for in the finished method. -/
def Point.target (p : Point) (l : Label) : Nat := (p.place? l).getD 0

/-- Closing a draft adds at most one statement, which does nothing. -/
theorem getElem?_code_close (d : Draft) (i : Nat) (c : Stmt Label × Option String) :
    d.close.code[i]? = some c → d.code[i]? = some c ∨ c.1 = .nop := by
  unfold Draft.close
  split
  · exact Or.inl
  · intro h
    rcases getElem?_push_eq_some.mp h with h | ⟨-, rfl⟩
    · exact Or.inl h
    · exact Or.inr rfl

theorem getElem?_code_close_of_some (d : Draft) {i : Nat} {c : Stmt Label × Option String} (h : d.code[i]? = some c) :
    d.close.code[i]? = some c := by
  unfold Draft.close
  split
  · exact h
  · exact getElem?_push_eq_some.mpr (Or.inl h)

theorem stmt?_toMethod (d : Draft) (i : Nat) : d.toMethod.stmt? i =
    (d.code[i]?).map fun c => c.1.mapTargets fun l => ((d.labels[l]?).join).getD 0 := by
  simp only [Draft.toMethod, Method.stmt?, Array.getElem?_map, Option.map_map]
  rfl

/-- The statements of the code are in the finished method, with their jumps resolved. -/
theorem Point.Has.at (hp : Ok p) (h : p.Has k seg) : At p.finished p.target k seg := by
  obtain ⟨d, hd, hwaits, -⟩ := hp.draft
  intro j s hs
  have hcode := h j s hs
  rw [Point.code, hd, Option.map_some, Option.getD_some, List.getElem?_map, Array.getElem?_toList] at hcode
  obtain ⟨c, hc, rfl⟩ := Option.map_eq_some_iff.mp hcode
  rw [Point.finished, hd, Option.getD_some, stmt?_toMethod, getElem?_code_close_of_some d hc, Option.map_some]
  have htarget : (fun l => ((d.close.labels[l]?).join).getD 0) = p.target := by
    funext l
    rw [Draft.labels_close (hwaits l), Point.target, Point.place?, hd, Option.bind_some]
  rw [htarget]

/-- A statement of the finished method is one of the code, or does nothing. -/
theorem stmt?_finished {i : Nat} {t : Stmt Nat} (hp : Ok p) (h : p.finished.stmt? i = some t) :
    t.defined? = none ∨ ∃ s ∈ p.code, t.defined? = s.defined? := by
  obtain ⟨d, hd, -⟩ := hp.draft
  rw [Point.finished, hd, Option.getD_some, stmt?_toMethod] at h
  obtain ⟨c, hc, rfl⟩ := Option.map_eq_some_iff.mp h
  rw [Stmt.defined?_mapTargets]
  rcases getElem?_code_close d i c hc with hc | hc
  · refine Or.inr ⟨c.1, ?_, rfl⟩
    rw [Point.code, hd, Option.map_some, Option.getD_some]
    exact List.mem_map_of_mem (Array.mem_toList_iff.mpr (Array.mem_of_getElem? hc))
  · rw [hc]
    exact Or.inl rfl

theorem length_code_le (hp : Ok p) : p.code.length ≤ p.finished.body.size := by
  obtain ⟨d, hd, -⟩ := hp.draft
  have hclose : d.code.size ≤ d.close.code.size := by
    unfold Draft.close
    split
    · exact Nat.le_refl _
    · exact Nat.le_of_lt (by simp)
  simpa [Point.code, Point.finished, hd, Draft.toMethod] using hclose

/-- Variables that nothing writes stay blank. -/
theorem Blank.step {c c' : Config α} (hp : Ok p) (h : Blank nothing p c.store) (hstep : Step lit p.finished c c') :
    Blank nothing p c'.store := by
  obtain ⟨t, ht, heffect⟩ := hstep.stmt
  intro x hx
  refine (heffect.others x fun heq => ?_).trans (h x hx)
  rcases stmt?_finished hp ht with hnone | ⟨s, hs, hdefined⟩
  · rw [hnone] at heq
    cases heq
  · exact hx.code s hs (hdefined ▸ heq)

/-! ## Positions -/

theorem Point.Has.mem (h : p.Has k seg) {s : Stmt Label} (hs : s ∈ seg) : s ∈ p.code := by
  obtain ⟨j, hj⟩ := List.mem_iff_getElem?.mp hs
  exact List.mem_of_getElem? (h j s hj)

theorem Point.Has.left {code : List (Stmt Label)} (h : p.Has k (seg ++ code)) : p.Has k seg := fun j s hs =>
  h j s ((List.getElem?_append_left (List.getElem?_eq_some_iff.mp hs).1).trans hs)

theorem Point.Has.le (h : p.Has k seg) (hne : seg ≠ []) : k + seg.length ≤ p.code.length := by
  have hpos : 0 < seg.length := List.length_pos_of_ne_nil hne
  have hlast := h (seg.length - 1) _ (List.getElem?_eq_getElem (Nat.sub_lt hpos Nat.one_pos))
  have := (List.getElem?_eq_some_iff.mp hlast).1
  omega

/-- The positions of a block are in order. -/
theorem Laid.order {blocks : Array Block} {i : Marks} (h : Laid S blocks p b i) :
    i.head ≤ i.entered ∧ i.entered ≤ i.tail ∧ i.tail < i.finish ∧ i.finish ≤ p.code.length := by
  obtain ⟨_, _, _, hentered⟩ := h.begins
  obtain ⟨_, _, _, htail⟩ := h.proceeds
  obtain ⟨assigns, ends, _, hends, hhas, hfinish⟩ := h.leaves
  have hpos : 0 < ends.length := List.length_pos_of_ne_nil hends.ne_nil
  have hle := hhas.le fun hnil => hends.ne_nil (List.append_eq_nil_iff.mp hnil).2
  rw [List.length_append] at hle hfinish
  omega

theorem Laid.target {blocks : Array Block} {i : Marks} {l : Label} (h : Laid S blocks p b i)
    (hl : p.scope.labels[b]? = some l) : p.target l = i.head := by
  obtain ⟨l', hl', hplace⟩ := h.label
  obtain rfl := Option.some.inj (hl.symm.trans hl')
  rw [Point.target, hplace]
  rfl

/-- The positions right after the copies at the heads of blocks. -/
def Entered (S : Setting) (f : Func) (m : MethodId) (s : State) (k : Nat) : Prop :=
  ∃ b ∈ blockIds f, k = (Func.marks S f m s b).entered

/-- Different blocks stand apart. -/
theorem Layout.disjoint (hL : Layout S f m s p) (hb : b ∈ blockIds f) (ht : t ∈ blockIds f) (hne : b ≠ t) :
    (Func.marks S f m s b).finish ≤ (Func.marks S f m s t).head ∨
      (Func.marks S f m s t).finish ≤ (Func.marks S f m s b).head := by
  let Apart (a c : BlockId) : Prop := a ≠ c → (Func.marks S f m s a).finish ≤ (Func.marks S f m s c).head ∨
    (Func.marks S f m s c).finish ≤ (Func.marks S f m s a).head
  have hsymm : Std.Symm Apart := ⟨fun _ _ h hne => (h hne.symm).symm⟩
  have hpairs : (blockIds f).Pairwise Apart := hL.apart.imp fun h _ => Or.inl h
  exact hpairs.forall_of_forall (fun _ _ h => absurd rfl h) hb ht hne

/-- No block is entered on the way into a block, nor on the way out of it. -/
theorem Layout.not_entered (hL : Layout S f m s p) (hb : b ∈ blockIds f)
    (hk : ((Func.marks S f m s b).head ≤ k ∧ k < (Func.marks S f m s b).entered) ∨
      ((Func.marks S f m s b).tail < k ∧ k < (Func.marks S f m s b).finish)) : ¬ Entered S f m s k := by
  rintro ⟨t, ht, rfl⟩
  have hborder := (hL.laid b hb).order
  have htorder := (hL.laid t ht).order
  by_cases hbt : b = t
  · subst hbt
    omega
  · rcases hL.disjoint hb ht hbt with h | h <;> omega

/-! ## Runs through a block -/

theorem Heads.straight {is : List Instruction} (h : Heads p is seg) : ∀ s ∈ seg, s.Straight := by
  induction h with
  | nil => nofun
  | cons _ _ _ ih =>
    intro s hs
    rcases List.mem_cons.mp hs with rfl | hs
    · trivial
    · exact ih s hs

theorem Assigns.straight {es : List (Nat × Instruction)} (h : Assigns S p es seg) : ∀ s ∈ seg, s.Straight := by
  induction h with
  | nil => nofun
  | cons _ _ hmakes _ ih =>
    intro s hs
    rcases List.mem_append.mp hs with hs | hs
    · exact (hmakes.quiet s hs).1
    · rcases List.mem_cons.mp hs with rfl | hs
      · trivial
      · exact ih s hs

/-- From the head of a block, a run goes through the copies of its phis. -/
theorem Layout.first_head (hL : Layout S f m s p) (lit : Int64 → α) (ht : t ∈ blockIds f) : ∃ copies,
    Heads p (headPhis ((f.blocks.getD #[]).getD t default)) copies ∧
    ∀ (store : Store α) (c' : Config α),
      First lit p.finished (Entered S f m s) ⟨(Func.marks S f m s t).head, store⟩ c' ↔
        ∃ store', Moves.Effects lit copies store store' ∧ c' = ⟨(Func.marks S f m s t).entered, store'⟩ := by
  obtain ⟨copies, hheads, hhas, hentered⟩ := (hL.laid t ht).begins
  refine ⟨copies, hheads, fun store c' => ?_⟩
  rw [Moves.first_straight lit (hhas.at hL.ok) hheads.straight fun j hj => hL.not_entered ht (Or.inl (by omega)),
    ← hentered]
  refine exists_congr fun store' => and_congr_right fun _ => Moves.first_iff_eq ⟨t, ht, rfl⟩

/-- It then goes through the instructions of the block. -/
theorem Layout.exists_tail (hL : Layout S f m s p) (lit : Int64 → α) (hb : b ∈ blockIds f) (store : Store α) :
    ∃ c', First lit p.finished (· = (Func.marks S f m s b).tail) ⟨(Func.marks S f m s b).entered, store⟩ c' := by
  obtain ⟨code, hstraight, hhas, htail⟩ := (hL.laid b hb).proceeds
  rw [htail]
  exact Moves.exists_first lit (hhas.at hL.ok) hstraight store

/-- A run comes to the end of the first block. -/
theorem Layout.exists_start (hL : Layout S f m s p) (lit : Int64 → α) (h0 : 0 ∈ blockIds f) (store : Store α) :
    ∃ c', First lit p.finished (· = (Func.marks S f m s 0).tail) ⟨0, store⟩ c' := by
  obtain ⟨opening, hopening, hhas, hhead⟩ := hL.opening
  obtain ⟨copies, hheads, hhas₁, hentered⟩ := (hL.laid 0 h0).begins
  obtain ⟨code, hcode, hhas₂, htail⟩ := (hL.laid 0 h0).proceeds
  have hall : p.Has 0 (opening ++ copies ++ code) := by
    refine (hhas.append ?_).append ?_
    · rw [Nat.zero_add, ← hhead]
      exact hhas₁
    · rw [Nat.zero_add, List.length_append, ← hhead, ← hentered]
      exact hhas₂
  have hstraight : ∀ s ∈ opening ++ copies ++ code, s.Straight := by
    intro s hs
    rcases List.mem_append.mp hs with hs | hs
    · exact (List.mem_append.mp hs).elim (hopening s) (hheads.straight s)
    · exact hcode s hs
  have hlength : (Func.marks S f m s 0).tail = 0 + (opening ++ copies ++ code).length := by
    simp only [List.length_append]
    omega
  rw [hlength]
  exact Moves.exists_first lit (hall.at hL.ok) hstraight store

/-- From the end of a block, a run goes through the code before the jump: nothing is entered there. -/
theorem Layout.crosses_code (hL : Layout S f m s p) (lit : Int64 → α) (hb : b ∈ blockIds f)
    {code rest : List (Stmt Label)} (hhas : p.Has (Func.marks S f m s b).tail (code ++ rest))
    (hfinish : (Func.marks S f m s b).finish = (Func.marks S f m s b).tail + (code ++ rest).length)
    (hcode : ∀ s ∈ code, s.Straight) (hrest : rest ≠ []) (store : Store α) (c' : Config α) :
    Crosses lit p.finished (Entered S f m s) ⟨(Func.marks S f m s b).tail, store⟩ c' ↔
      ∃ store', Moves.Effects lit code store store' ∧
        Crosses lit p.finished (Entered S f m s) ⟨(Func.marks S f m s b).tail + code.length, store'⟩ c' := by
  have hpos : 0 < rest.length := List.length_pos_of_ne_nil hrest
  rw [List.length_append] at hfinish
  exact Moves.crosses_straight lit (hhas.left.at hL.ok) hcode fun j hj => hL.not_entered hb (Or.inr (by omega))

/-- From the end of a block, a run goes through the assignments for its successors, and to one of these. -/
theorem Layout.crosses_tail (hL : Layout S f m s p) (lit : Int64 → α) (hf : WellFormed f) (hb : b ∈ blockIds f) : ∃ assigns quiet,
    Assigns S p (outgoing (f.blocks.getD #[]) b) assigns ∧ Quiet p quiet ∧ (∀ s ∈ assigns, s ∈ p.code) ∧
    ∀ (store : Store α) (c' : Config α),
      Crosses lit p.finished (Entered S f m s) ⟨(Func.marks S f m s b).tail, store⟩ c' ↔
        ∃ t ∈ ((f.blocks.getD #[]).getD b default).succs, ∃ store', Moves.Effects lit (assigns ++ quiet) store store' ∧
          First lit p.finished (Entered S f m s) ⟨(Func.marks S f m s t).head, store'⟩ c' := by
  obtain ⟨assigns, ends, hassigns, hends, hhas, hfinish⟩ := (hL.laid b hb).leaves
  have hsuccs := (hf.blocks b hb).succs
  have horder := (hL.laid b hb).order
  have hmem : ∀ s ∈ assigns, s ∈ p.code := fun s hs => hhas.left.mem hs
  have hall {code rest : List (Stmt Label)} (hends : ends = code ++ rest) :
      p.Has (Func.marks S f m s b).tail (assigns ++ code ++ rest) := by
    rw [List.append_assoc, ← hends]
    exact hhas
  -- code before the jump is crossed
  have hcross {code rest : List (Stmt Label)} (hends : ends = code ++ rest) (hcode : ∀ s ∈ code, s.Straight) :=
    hL.crosses_code lit hb (hall hends) (by rw [List.append_assoc, ← hends]; exact hfinish)
      fun s hs => (List.mem_append.mp hs).elim (hassigns.straight s) (hcode s)
  -- and then the jump is made
  have hjump (code rest : List (Stmt Label)) (hends : ends = code ++ rest) :
      At p.finished p.target ((Func.marks S f m s b).tail + (assigns ++ code).length) rest :=
    ((hall hends).at hL.ok).right
  generalize hsuccs_eq : ((f.blocks.getD #[]).getD b default).succs = succs at hends hsuccs ⊢
  cases hends with
  | @jump t l hl =>
    have ht := (hsuccs t List.mem_cons_self).1
    refine ⟨assigns, [], hassigns, quiet_nil, hmem, fun store c' => ?_⟩
    rw [hcross (List.nil_append _).symm nofun (List.cons_ne_nil _ _) store c']
    have hs := (hjump [] [.jump l] rfl).head
    rw [Stmt.mapTargets, (hL.laid t ht).target hl] at hs
    simp only [Moves.crosses_jump hs, List.mem_singleton, exists_eq_left]
  | @branch t u l l' x z code hquiet hl hl' =>
    have ht := (hsuccs t List.mem_cons_self).1
    have hu := (hsuccs u (List.mem_cons_of_mem t List.mem_cons_self)).1
    refine ⟨assigns, code, hassigns, hquiet, hmem, fun store c' => ?_⟩
    rw [hcross rfl (fun s hs => (hquiet s hs).1) (List.cons_ne_nil _ _) store c']
    have hat := hjump code [.branch .ne x z l, .jump l'] rfl
    have hs := hat.head
    have hs' := hat.tail.head
    rw [Stmt.mapTargets, (hL.laid t ht).target hl] at hs
    rw [Stmt.mapTargets, (hL.laid u hu).target hl'] at hs'
    have hnot : ¬ Entered S f m s ((Func.marks S f m s b).tail + (assigns ++ code).length + 1) := by
      simp only [List.length_append, List.length_cons, List.length_nil] at hfinish ⊢
      exact hL.not_entered hb (Or.inr (by omega))
    have hsecond (store' : Store α) :
        First lit p.finished (Entered S f m s) ⟨(Func.marks S f m s b).tail + (assigns ++ code).length + 1, store'⟩ c' ↔
          First lit p.finished (Entered S f m s) ⟨(Func.marks S f m s u).head, store'⟩ c' :=
      (Moves.crosses_iff_first hnot).symm.trans (Moves.crosses_jump hs')
    simp only [Moves.crosses_branch hs, hsecond, List.mem_cons, List.not_mem_nil, or_false, exists_eq_or_imp,
      exists_eq_left, and_or_left, exists_or]
  | @leave v code hcode =>
    refine ⟨assigns, [], hassigns, quiet_nil, hmem, fun store c' => ?_⟩
    rw [hcross rfl hcode (List.cons_ne_nil _ _) store c']
    have hs := (hjump code [.ret v] rfl).head
    have hend : ¬ Entered S f m s p.finished.body.size := by
      rintro ⟨t, ht, heq⟩
      have := (hL.laid t ht).order
      have := length_code_le hL.ok
      omega
    constructor
    · rintro ⟨_, _, h⟩
      exact absurd h (Moves.not_crosses_ret hs hend)
    · rintro ⟨_, h, _⟩
      cases h

/-! ## From block to block -/

/-- What happens between the end of a block and the instructions of the next one. -/
structure Assigned (lit : Int64 → α) (nothing : α) (S : Setting) (f : Func) (p : Point) (b t : BlockId)
    (store store' : Store α) : Prop where
  /-- Each phi gets the value that its operand for the block had at the end of the block. -/
  phis : ∀ i ∈ headPhis ((f.blocks.getD #[]).getD t default), ∃ k o x,
    ((f.blocks.getD #[]).getD t default).preds[k]? = some b ∧ i.operand? k = some o ∧
      p.scope.vars[valueOf i]? = some x ∧ Holds lit nothing S p store o (store'.locals x)
  /-- All other values of the function keep theirs. -/
  others : ∀ (v : ValueId) (x : VarId), v ∉ phiValues ((f.blocks.getD #[]).getD t default) →
    p.scope.vars[v]? = some x → store'.locals x = store.locals x
  statics : store'.statics = store.statics

theorem nodup_phiValues (hf : WellFormed f) {ts : List BlockId} (hts : ts.Nodup) (hmem : ∀ t ∈ ts, t ∈ blockIds f) :
    (ts.flatMap fun t => phiValues ((f.blocks.getD #[]).getD t default)).Nodup := by
  obtain ⟨hown, hpairs⟩ := List.nodup_flatMap.mp hf.values
  let Apart (a c : BlockId) : Prop := a ≠ c → List.Disjoint (phiValues ((f.blocks.getD #[]).getD a default))
    (phiValues ((f.blocks.getD #[]).getD c default))
  have hsymm : Std.Symm Apart := ⟨fun _ _ h hne _ hv hv' => h hne.symm hv' hv⟩
  have happart : (blockIds f).Pairwise Apart := by
    refine hpairs.imp ?_
    exact fun h _ => h
  refine List.nodup_flatMap.mpr ⟨fun t ht => hown t (hmem t ht), hts.pairwise_of_forall_ne fun a ha c hc hne => ?_⟩
  exact happart.forall_of_forall (fun _ _ h => absurd rfl h) (hmem a ha) (hmem c hc) hne

theorem map_valueOf_headPhis (hf : WellFormed f) (ht : t ∈ blockIds f) :
    (headPhis ((f.blocks.getD #[]).getD t default)).map valueOf =
      phiValues ((f.blocks.getD #[]).getD t default) := by
  rw [phiValues, (hf.blocks t ht).phisOf_eq]

theorem nodup_outgoing (hf : WellFormed f) (hb : b ∈ blockIds f) :
    ((outgoing (f.blocks.getD #[]) b).map fun e => valueOf e.2).Nodup := by
  obtain ⟨i, -, hi⟩ := (hf.blocks b hb).ends
  have hsuccs := (hf.blocks b hb).succs
  have hvalues : (outgoing (f.blocks.getD #[]) b).map (fun e => valueOf e.2) =
      (((f.blocks.getD #[]).getD b default).succs.flatMap fun t =>
        phiValues ((f.blocks.getD #[]).getD t default)) := by
    rw [outgoing, List.map_flatMap]
    refine List.flatMap_congr fun t ht => ?_
    rw [List.map_map, ← map_valueOf_headPhis hf (hsuccs t ht).1]
    rfl
  rw [hvalues]
  exact nodup_phiValues hf (nodup_of_terminates hi) fun t ht => (hsuccs t ht).1

/-- The assignments before a jump and the copies after it make one parallel assignment. -/
theorem Layout.assigned (hL : Layout S f m s p) (hf : WellFormed f) (hb : b ∈ blockIds f)
    (ht : t ∈ ((f.blocks.getD #[]).getD b default).succs) {assigns quiet copies : List (Stmt Label)}
    {store store₁ store₂ : Store α} (hassigns : Assigns S p (outgoing (f.blocks.getD #[]) b) assigns)
    (hquiet : Quiet p quiet) (hcode : ∀ s ∈ assigns, s ∈ p.code)
    (hheads : Heads p (headPhis ((f.blocks.getD #[]).getD t default)) copies) (hblank : Blank nothing p store)
    (hleave : Moves.Effects lit (assigns ++ quiet) store store₁) (henter : Moves.Effects lit copies store₁ store₂) :
    Assigned lit nothing S f p b t store store₂ := by
  obtain ⟨htmem, hpred⟩ := (hf.blocks b hb).succs t ht
  have hdistinct : ((headPhis ((f.blocks.getD #[]).getD t default)).map valueOf).Nodup := by
    rw [map_valueOf_headPhis hf htmem]
    exact (List.nodup_flatMap.mp hf.values).1 t htmem
  obtain ⟨store₀, hassign, hrest⟩ := hleave.split
  obtain ⟨hsame, hshadows, -⟩ := effects_assigns hL.ok hassigns (nodup_outgoing hf hb) hcode hblank hassign
  obtain ⟨hphis, hothers, hstatics⟩ := effects_heads hL.ok hheads hdistinct henter
  have hsame₁ := hsame.trans (hquiet.sameValues hrest)
  refine ⟨fun i hi => ?_, fun v x hv hx => ?_, hstatics.trans hsame₁.statics⟩
  · have hedge : (((f.blocks.getD #[]).getD t default).preds.idxOf b, i) ∈ outgoing (f.blocks.getD #[]) b :=
      List.mem_flatMap.mpr ⟨t, ht, List.mem_map_of_mem hi⟩
    obtain ⟨o, y, ho, hy, hholds⟩ := hshadows _ hedge
    obtain ⟨x, y', hx, hy', heq⟩ := hphis i hi
    obtain rfl := Option.some.inj (hy.symm.trans hy')
    have hkeep : store₁.locals y = store₀.locals y := (hquiet.effects hrest).1 y fun htemp => htemp.shadows _ hy
    refine ⟨_, o, x, List.getElem?_idxOf hpred, ho, hx, ?_⟩
    rw [heq, hkeep]
    exact hholds
  · refine (hothers x fun i hi hxi => hv ?_).trans (hsame₁.values v x hx)
    rw [← map_valueOf_headPhis hf htmem, ← hL.ok.vars_inj _ _ _ hxi hx]
    exact List.mem_map_of_mem hi

/-! ## Paths -/

/-- A path of blocks from the first one, the latest block first. -/
inductive Path (f : Func) : List BlockId → Prop
  | entry : Path f [0]
  | step {b t : BlockId} {path : List BlockId} : Path f (b :: path) → t ∈ ((f.blocks.getD #[]).getD b default).succs →
      Path f (t :: b :: path)

/-- The state in which the body of a function is lowered: the function counts. -/
def counted (s : State) : State := { s with functions := s.functions + 1 }

/-- What is known when a function is lowered. -/
def lowered (S : Setting) (f : FuncId) (m : MethodId) (s : State) : Point :=
  (start (S.source.func f) m (counted s)).after S body

/-- The method that a function is lowered to. -/
def loweredMethod (S : Setting) (f : FuncId) (m : MethodId) (s : State) : Method :=
  (((lowerFunction f m S s).2.builder.drafts[m]?).getD default).close.toMethod

/-- The positions of a block in the method. -/
def positions (S : Setting) (f : FuncId) (m : MethodId) (s : State) (b : BlockId) : Marks :=
  Func.marks S (S.source.func f) m (counted s) b

/-- From one block to the next: up to the position right after the copies at its head. -/
def Enters (lit : Int64 → α) (S : Setting) (f : FuncId) (m : MethodId) (s : State) : Config α → Config α → Prop :=
  Crosses lit (loweredMethod S f m s) (Entered S (S.source.func f) m (counted s))

/-- A run of the method along a path of blocks, to the end of the latest one. -/
inductive Along (lit : Int64 → α) (S : Setting) (f : FuncId) (m : MethodId) (s : State) (c₀ : Config α) :
    List BlockId → Config α → Prop
  | start {c : Config α} : First lit (loweredMethod S f m s) (· = (positions S f m s 0).tail) c₀ c →
      Along lit S f m s c₀ [0] c
  | step {b t : BlockId} {path : List BlockId} {c c₁ c' : Config α} : Along lit S f m s c₀ (b :: path) c →
      t ∈ (((S.source.func f).blocks.getD #[]).getD b default).succs → Enters lit S f m s c c₁ →
      c₁.pc = (positions S f m s t).entered →
      First lit (loweredMethod S f m s) (· = (positions S f m s t).tail) c₁ c' →
      Along lit S f m s c₀ (t :: b :: path) c'

section

variable {f : FuncId}

theorem Ready.counted {func : Func} (h : Ready func m s) : Ready func m (counted s) :=
  ⟨h.draft, h.length, h.distinct, h.declared⟩

theorem loweredMethod_eq (hL : Layout S (S.source.func f) m (counted s) (lowered S f m s)) :
    loweredMethod S f m s = (lowered S f m s).finished := by
  rw [Point.finished, Point.draft?, hL.method]
  rfl

/-- A run begins: the parameters of the method have any values, and all other variables hold nothing. -/
structure Begins (nothing : α) (m : MethodId) (s : State) (c : Config α) : Prop where
  pc : c.pc = 0
  locals : ∀ x, x ∉ formals s m → c.store.locals x = nothing

theorem Begins.blank {func : Func} {c : Config α} (h : Begins nothing m s c)
    (hL : Layout S func m (Lowering.counted s) p) : Blank nothing p c.store := by
  refine fun x hx => h.locals x fun hmem => ?_
  obtain ⟨v, hv⟩ := hL.params x hmem
  exact hx.vars v hv

/-- Where a run along a path is. -/
structure Arrived (nothing : α) (S : Setting) (f : FuncId) (m : MethodId) (s : State) (b : BlockId) (c : Config α) :
    Prop where
  block : b ∈ blockIds (S.source.func f)
  pc : c.pc = (positions S f m s b).tail
  blank : Blank nothing (lowered S f m s) c.store

theorem Along.arrived {c₀ c : Config α} {path : List BlockId} (hf : WellFormed (S.source.func f))
    (hL : Layout S (S.source.func f) m (Lowering.counted s) (lowered S f m s)) (hc₀ : Begins nothing m s c₀)
    (h : Along lit S f m s c₀ (b :: path) c) : Arrived nothing S f m s b c := by
  have hstep : ∀ c c' : Config α, Blank nothing (lowered S f m s) c.store →
      Step lit (loweredMethod S f m s) c c' → Blank nothing (lowered S f m s) c'.store := by
    rw [loweredMethod_eq hL]
    exact fun c c' hc hcc' => hc.step hL.ok hcc'
  generalize hblocks : b :: path = blocks at h
  induction h generalizing b path with
  | start hfirst =>
    cases hblocks
    exact ⟨hf.entry, hfirst.arrives,
      hfirst.invariant (I := fun c => Blank nothing (lowered S f m s) c.store) hstep (hc₀.blank hL)⟩
  | @step a t path _ _ _ _ ht henters _ hfirst ih =>
    cases hblocks
    have ha := ih rfl
    have hblank := henters.invariant (I := fun c => Blank nothing (lowered S f m s) c.store) hstep ha.blank
    exact ⟨((hf.blocks a ha.block).succs t ht).1, hfirst.arrives,
      hfirst.invariant (I := fun c => Blank nothing (lowered S f m s) c.store) hstep hblank⟩

/-- From the end of a block, a run enters each of its successors and no other block, and the phis are then
assigned. -/
theorem Arrived.enters {c : Config α} (hc : Arrived nothing S f m s b c) (lit : Int64 → α)
    (hf : WellFormed (S.source.func f))
    (hL : Layout S (S.source.func f) m (Lowering.counted s) (lowered S f m s)) :
    (∀ t ∈ (((S.source.func f).blocks.getD #[]).getD b default).succs,
      ∃ c', Enters lit S f m s c c' ∧ c'.pc = (positions S f m s t).entered) ∧
    ∀ c', Enters lit S f m s c c' → ∃ t ∈ (((S.source.func f).blocks.getD #[]).getD b default).succs,
      c'.pc = (positions S f m s t).entered ∧
        Assigned lit nothing S (S.source.func f) (lowered S f m s) b t c.store c'.store := by
  obtain ⟨assigns, quiet, hassigns, hquiet, hcode, hcross⟩ := hL.crosses_tail lit hf hc.block
  obtain ⟨pc, store⟩ := c
  obtain rfl : pc = (positions S f m s b).tail := hc.pc
  have henters := hcross store
  rw [← loweredMethod_eq hL] at henters
  refine ⟨fun t ht => ?_, fun c' h => ?_⟩
  · obtain ⟨copies, hheads, hhead⟩ := hL.first_head lit ((hf.blocks b hc.block).succs t ht).1
    obtain ⟨store₁, hleave⟩ := Moves.exists_effects lit (assigns ++ quiet) store
    obtain ⟨store₂, henter⟩ := Moves.exists_effects lit copies store₁
    refine ⟨⟨_, store₂⟩, (henters _).mpr ⟨t, ht, store₁, hleave, ?_⟩, rfl⟩
    rw [loweredMethod_eq hL]
    exact (hhead store₁ _).mpr ⟨store₂, henter, rfl⟩
  · obtain ⟨t, ht, store₁, hleave, hfirst⟩ := (henters c').mp h
    obtain ⟨copies, hheads, hhead⟩ := hL.first_head lit ((hf.blocks b hc.block).succs t ht).1
    rw [loweredMethod_eq hL] at hfirst
    obtain ⟨store₂, henter, rfl⟩ := (hhead store₁ c').mp hfirst
    exact ⟨t, ht, rfl, hL.assigned hf hc.block ht hassigns hquiet hcode hheads hc.blank hleave henter⟩

/-- Every path can be run. -/
theorem exists_along {c₀ : Config α} {path : List BlockId} (lit : Int64 → α) (hf : WellFormed (S.source.func f))
    (hL : Layout S (S.source.func f) m (Lowering.counted s) (lowered S f m s)) (hc₀ : Begins nothing m s c₀)
    (h : Path (S.source.func f) path) : ∃ c, Along lit S f m s c₀ path c := by
  induction h with
  | entry =>
    obtain ⟨c, hc⟩ := hL.exists_start lit hf.entry c₀.store
    rw [← loweredMethod_eq hL] at hc
    have hstart : c₀ = ⟨0, c₀.store⟩ := by rw [← hc₀.pc]
    exact ⟨c, .start (hstart ▸ hc)⟩
  | @step b t path _ ht ih =>
    obtain ⟨c, hc⟩ := ih
    have harrived := hc.arrived hf hL hc₀
    obtain ⟨c₁, henters, hpc⟩ := (harrived.enters lit hf hL).1 t ht
    obtain ⟨c', hc'⟩ := hL.exists_tail lit ((hf.blocks b harrived.block).succs t ht).1 c₁.store
    rw [← loweredMethod_eq hL] at hc'
    refine ⟨c', .step hc ht henters hpc ?_⟩
    obtain ⟨pc, store⟩ := c₁
    obtain rfl : pc = (positions S f m s t).entered := hpc
    exact hc'

/-- Phis are assigned in parallel. Every path of a function can be run in its method. Where a run along a
path comes to the end of a block, it can go on to each of the successors, and wherever it goes on to, it
enters a successor: there each phi has the value that its operand for the block had at the end of the
block, and all other values of the function are unchanged. -/
theorem phis_parallel (lit : Int64 → α) (hf : WellFormed (S.source.func f)) (hm : Ready (S.source.func f) m s)
    {c₀ : Config α} (hc₀ : Begins nothing m s c₀) :
    (∀ path, Path (S.source.func f) path → ∃ c, Along lit S f m s c₀ path c) ∧
    ∀ b path c, Along lit S f m s c₀ (b :: path) c →
      (∀ t ∈ (((S.source.func f).blocks.getD #[]).getD b default).succs,
        ∃ c', Enters lit S f m s c c' ∧ c'.pc = (positions S f m s t).entered) ∧
      ∀ c', Enters lit S f m s c c' → ∃ t ∈ (((S.source.func f).blocks.getD #[]).getD b default).succs,
        c'.pc = (positions S f m s t).entered ∧
          Assigned lit nothing S (S.source.func f) (lowered S f m s) b t c.store c'.store := by
  have hL : Layout S (S.source.func f) m (Lowering.counted s) (lowered S f m s) := layout_body hf hm.counted
  refine ⟨fun path hpath => exists_along lit hf hL hc₀ hpath, fun b path c hc => ?_⟩
  exact (hc.arrived hf hL hc₀).enters lit hf hL

end

/-- A function that exchanges its parameters for ever. -/
def spin : Func :=
  let phi (v edge back : ValueId) : Instruction :=
    { action := .phi, name := "Phi", operands := [some (.value edge), some (.value back)], result := some v, pos := none }
  let jump : Instruction := { action := .jump, name := "Jump", operands := [], result := none, pos := none }
  { (default : Func) with
    name := "spin"
    params := [0, 1]
    values := #[("a", 0), ("b", 0), ("x", 0), ("y", 0)]
    blocks := some #[{ preds := [], succs := [1], instrs := [jump] },
      { preds := [0, 1], succs := [1], instrs := [phi 2 0 3, phi 3 1 2, jump] }] }

def spinning : Setting where
  source := { funcs := #[spin] }
  admits _ := true

/-- The method of the function is declared. -/
def spinDeclared : State where
  builder := { ({} : Builder) with
    vars := #[{ name := "a", ty := .ref 0, method := 0, index := 0 }, { name := "b", ty := .ref 0, method := 0, index := 1 }]
    drafts := #[{ header := { (default : Method) with params := #[0, 1], vars := #[0, 1] } }] }

theorem wellFormed_spin : WellFormed spin := by
  have hids : blockIds spin = [0, 1] := rfl
  refine ⟨by decide, by decide, fun id hid => ?_, by decide⟩
  rw [hids] at hid ⊢
  rcases List.mem_cons.mp hid with rfl | hid
  · exact ⟨⟨_, rfl, trivial⟩, by decide, by decide, by decide, by decide⟩
  · obtain rfl := List.mem_singleton.mp hid
    exact ⟨⟨_, rfl, trivial⟩, by decide, by decide, by decide, by decide⟩

theorem ready_spin : Ready spin 0 spinDeclared :=
  ⟨⟨_, rfl, rfl, rfl, rfl⟩, rfl, by decide, by decide⟩

/-- The function is called with one and two. -/
def spinStart : Config Int64 where
  pc := 0
  store := { locals := fun x => if x = 0 then 1 else if x = 1 then 2 else 0, statics := fun _ => 0 }

theorem begins_spin : Begins 0 0 spinDeclared spinStart := by
  refine ⟨rfl, fun x hx => ?_⟩
  have hformals : formals spinDeclared 0 = [0, 1] := rfl
  rw [hformals] at hx
  simp only [List.mem_cons, List.not_mem_nil, or_false, not_or] at hx
  simp [spinStart, hx.1, hx.2]

/-- Each time around, the two phis of the loop exchange their values. -/
theorem spin_exchanges : WellFormed spin ∧ Ready spin 0 spinDeclared ∧ Begins 0 0 spinDeclared spinStart ∧
    ∀ path c c', Along id spinning 0 0 spinDeclared spinStart (1 :: path) c → Enters id spinning 0 0 spinDeclared c c' →
      ∃ x y, (lowered spinning 0 0 spinDeclared).scope.vars[2]? = some x ∧
        (lowered spinning 0 0 spinDeclared).scope.vars[3]? = some y ∧
        c'.store.locals x = c.store.locals y ∧ c'.store.locals y = c.store.locals x := by
  refine ⟨wellFormed_spin, ready_spin, begins_spin, fun path c c' hc henters => ?_⟩
  obtain ⟨-, hparallel⟩ := phis_parallel id (S := spinning) (f := 0) wellFormed_spin ready_spin begins_spin
  obtain ⟨t, ht, -, hassigned⟩ := (hparallel 1 path c hc).2 c' henters
  obtain rfl : t = 1 := List.mem_singleton.mp ht
  -- the block is its second predecessor
  have hphi {i : Instruction} {w : ValueId} (hi : i ∈ headPhis ((spin.blocks.getD #[]).getD 1 default))
      (hback : i.operand? 1 = some (.value w)) :
      ∃ x y, (lowered spinning 0 0 spinDeclared).scope.vars[valueOf i]? = some x ∧
        (lowered spinning 0 0 spinDeclared).scope.vars[w]? = some y ∧ c'.store.locals x = c.store.locals y := by
    obtain ⟨k, o, x, hk, ho, hx, hholds⟩ := hassigned.phis i hi
    obtain rfl : k = 1 := by
      rcases k with _ | _ | k
      · cases hk
      · rfl
      · cases hk
    obtain rfl := Option.some.inj (hback.symm.trans ho)
    generalize hvalue : c'.store.locals x = a at hholds
    cases hholds with
    | value hy => exact ⟨x, _, hx, hy, hvalue⟩
  obtain ⟨x, y, hx, hy, hxy⟩ := hphi List.mem_cons_self rfl
  obtain ⟨y', x', hy', hx', hyx⟩ := hphi (List.mem_cons_of_mem _ List.mem_cons_self) rfl
  obtain rfl := Option.some.inj (hx.symm.trans hx')
  obtain rfl := Option.some.inj (hy.symm.trans hy')
  exact ⟨x, y, hx, hy, hxy, hyx⟩

end WholeProgram.Lowering
