import Mathlib.Data.List.TakeWhile
import WholeProgram.Proofs.Lowering.Labels

/-!
# The layout of blocks

The code of a block stands in one piece: the copies of its phis, the code of its instructions, the
assignments to the shadows of the phis of its successors, and the jumps.

* `WellFormed` — functions whose blocks are as blocks in static single assignment form are;
* `Heads`, `Assigns`, `Ends` — the parts of the code of a block that are about phis and jumps;
* `Marks` — the positions between the parts;
* `comes_lowerBlock` — lowering a block adds its code;
* `comes_lowerBlocks` — so all blocks come to stand one after the other.
-/

namespace WholeProgram.Lowering

open Ssa (TypeId FuncId GlobalId ValueId BlockId Operand Instruction Block Func)

/-! ## Functions -/

/-- The instruction ends a block with these successors. -/
def Terminates (i : Instruction) (succs : List BlockId) : Prop :=
  match i.action, succs with
  | .jump, [_] => True
  | .branch, [t, u] => t ≠ u
  | .ret, [] => True
  | .panic, [] => True
  | _, _ => False

/-- A block ends in a terminator, its phis stand at its head with one edge per predecessor, and it is a
predecessor of its successors. -/
structure WellFormedBlock (blocks : Array Block) (ids : List BlockId) (id : BlockId) : Prop where
  ends : ∃ i, (blocks.getD id default).instrs.getLast? = some i ∧ Terminates i (blocks.getD id default).succs
  phis : ∀ i ∈ (blocks.getD id default).instrs.dropWhile (·.isPhi), i.isPhi = false
  preds : (blocks.getD id default).preds.Nodup
  edges : ∀ i ∈ headPhis (blocks.getD id default), ∀ k < (blocks.getD id default).preds.length,
    (i.operand? k).isSome
  succs : ∀ t ∈ (blocks.getD id default).succs, t ∈ ids ∧ id ∈ (blocks.getD t default).preds

/-- All blocks but the one for panics are so, control begins at the first, and different phis define
different values. -/
structure WellFormed (f : Func) : Prop where
  params : f.params.Nodup
  entry : 0 ∈ blockIds f
  blocks : ∀ id ∈ blockIds f, WellFormedBlock (f.blocks.getD #[]) (blockIds f) id
  values : ((blockIds f).flatMap fun id => phiValues ((f.blocks.getD #[]).getD id default)).Nodup

variable {blocks : Array Block} {ids : List BlockId} {id : BlockId}

theorem not_isPhi_of_terminates {i : Instruction} {succs : List BlockId} (h : Terminates i succs) :
    i.isPhi = false := by
  unfold Terminates at h
  unfold Instruction.isPhi
  split at h <;> simp_all

/-- The phis of a block are followed by other instructions, and one of these is the last. -/
theorem WellFormedBlock.instrs (h : WellFormedBlock blocks ids id) :
    (blocks.getD id default).instrs.dropLast =
        headPhis (blocks.getD id default) ++
          ((blocks.getD id default).instrs.dropWhile (·.isPhi)).dropLast := by
  obtain ⟨i, hlast, hi⟩ := h.ends
  have hne : (blocks.getD id default).instrs.dropWhile (·.isPhi) ≠ [] := by
    intro hnil
    have hphi : i.isPhi = true := List.dropWhile_eq_nil_iff.mp hnil i (List.mem_of_getLast? hlast)
    rw [not_isPhi_of_terminates hi] at hphi
    cases hphi
  conv_lhs => rw [← List.takeWhile_append_dropWhile (p := (·.isPhi)) (l := (blocks.getD id default).instrs)]
  exact List.dropLast_append_of_ne_nil hne

theorem WellFormedBlock.phisOf_eq (h : WellFormedBlock blocks ids id) :
    phisOf (blocks.getD id default) = headPhis (blocks.getD id default) := by
  have hhead : ∀ i ∈ headPhis (blocks.getD id default), i.isPhi = true := fun i hi => List.mem_takeWhile_imp hi
  have hrest : ((blocks.getD id default).instrs.dropWhile (·.isPhi)).filter (·.isPhi) = [] :=
    List.filter_eq_nil_iff.mpr fun i hi => by simp [h.phis i hi]
  conv_lhs => rw [phisOf, ← List.takeWhile_append_dropWhile (p := (·.isPhi)) (l := (blocks.getD id default).instrs)]
  rw [List.filter_append, hrest, List.append_nil]
  exact List.filter_eq_self.mpr hhead

/-! ## Parts of the code -/

variable {α : Type} {S : Setting} {A : Stmt Label → Prop} {n k : Nat} {p q : Point} {seg code : List (Stmt Label)}

/-- The statements stand at this position of the code. -/
def Point.Has (p : Point) (k : Nat) (seg : List (Stmt Label)) : Prop :=
  ∀ j s, seg[j]? = some s → p.code[k + j]? = some s

theorem Point.Has.later (h : p.Has k seg) (hpq : Later A n p q) : q.Has k seg := by
  obtain ⟨new, hnew, -⟩ := hpq.code
  intro j s hs
  have hlt := (List.getElem?_eq_some_iff.mp (h j s hs)).1
  rw [hnew, List.getElem?_append_left hlt]
  exact h j s hs

theorem has_of_append (h : q.code = p.code ++ seg) : q.Has p.code.length seg := by
  intro j s hs
  rwa [h, List.getElem?_append_right (Nat.le_add_right _ _), Nat.add_sub_cancel_left]

theorem Point.Has.append (h : p.Has k seg) (h' : p.Has (k + seg.length) code) : p.Has k (seg ++ code) := by
  intro j s hs
  rcases Nat.lt_or_ge j seg.length with hlt | hge
  · rw [List.getElem?_append_left hlt] at hs
    exact h j s hs
  · rw [List.getElem?_append_right hge] at hs
    have hj : k + seg.length + (j - seg.length) = k + j := by omega
    exact hj ▸ h' (j - seg.length) s hs

/-- The code between two points, where control only goes on. -/
theorem Later.straight (h : Later Stmt.Straight n p q) :
    ∃ new, q.code = p.code ++ new ∧ ∀ s ∈ new, s.Straight := h.code

/-- The statements write variables that are of no value and no shadow, and nothing else. -/
def Quiet (p : Point) (code : List (Stmt Label)) : Prop :=
  ∀ s ∈ code, s.Straight ∧ s.call? = none ∧ s.stores? = none ∧ ∀ x, s.defined? = some x → p.Temp x

theorem quiet_nil : Quiet p [] := nofun

theorem quiet_singleton {s : Stmt Label} {x : VarId} (hs : s.Straight ∧ s.call? = none ∧ s.stores? = none)
    (hdefined : s.defined? = some x) (hx : p.Temp x) : Quiet p [s] := by
  intro t ht
  obtain rfl := List.mem_singleton.mp ht
  refine ⟨hs.1, hs.2.1, hs.2.2, fun y hy => ?_⟩
  obtain rfl := Option.some.inj (hdefined.symm.trans hy)
  exact hx

theorem Quiet.append (h : Quiet p seg) (h' : Quiet p code) : Quiet p (seg ++ code) :=
  fun s hs => (List.mem_append.mp hs).elim (h s) (h' s)

theorem Quiet.later (h : Quiet p code) (hpq : Later A n p q) : Quiet q code := fun s hs =>
  have ⟨hstraight, hcall, hstores, htemp⟩ := h s hs
  ⟨hstraight, hcall, hstores, fun x hx => hpq.temp (htemp x hx)⟩

theorem Makes.quiet {o : Operand} {x : VarId} (h : Makes S p o code x) : Quiet p code := by
  cases h with
  | value | zero | builtin => exact quiet_nil
  | literal _ hx | constant _ _ hx | cell _ hx | global _ _ hx | func hx =>
    exact quiet_singleton ⟨trivial, rfl, rfl⟩ rfl hx

/-- The phis get the values of their shadows. -/
inductive Heads (p : Point) : List Instruction → List (Stmt Label) → Prop
  | nil : Heads p [] []
  | cons {i : Instruction} {x y : VarId} {is : List Instruction} {code : List (Stmt Label)} :
      p.scope.vars[valueOf i]? = some x → p.scope.shadows[valueOf i]? = some y → Heads p is code →
      Heads p (i :: is) (.copy x y :: code)

/-- The shadows of phis get the values that come along edges. -/
inductive Assigns (S : Setting) (p : Point) : List (Nat × Instruction) → List (Stmt Label) → Prop
  | nil : Assigns S p [] []
  | cons {k : Nat} {i : Instruction} {o : Operand} {x y : VarId} {es : List (Nat × Instruction)}
      {code rest : List (Stmt Label)} :
      i.operand? k = some o → p.scope.shadows[valueOf i]? = some y → Makes S p o code x → Assigns S p es rest →
      Assigns S p ((k, i) :: es) (code ++ .copy y x :: rest)

/-- Control goes to these blocks. -/
inductive Ends (p : Point) : List BlockId → List (Stmt Label) → Prop
  | jump {t : BlockId} {l : Label} : p.scope.labels[t]? = some l → Ends p [t] [.jump l]
  | branch {t u : BlockId} {l l' : Label} {x z : VarId} {code : List (Stmt Label)} : Quiet p code →
      p.scope.labels[t]? = some l → p.scope.labels[u]? = some l' →
      Ends p [t, u] (code ++ [.branch .ne x z l, .jump l'])
  | leave {v : Option VarId} {code : List (Stmt Label)} : (∀ s ∈ code, s.Straight) → Ends p [] (code ++ [.ret v])

theorem Heads.later {is : List Instruction} (h : Heads p is code) (hpq : Later A n p q) : Heads q is code := by
  induction h with
  | nil => exact .nil
  | cons hx hy _ ih => exact .cons (hpq.vars.old _ _ hx) (hpq.shadows.old _ _ hy) ih

theorem Assigns.later {es : List (Nat × Instruction)} (h : Assigns S p es code) (hpq : Later A p.numVars p q) :
    Assigns S q es code := by
  induction h with
  | nil => exact .nil
  | cons ho hy hx _ ih => exact .cons ho (hpq.shadows.old _ _ hy) (hx.later hpq) ih

theorem Assigns.append {es es' : List (Nat × Instruction)} (h : Assigns S p es seg) (h' : Assigns S p es' code) :
    Assigns S p (es ++ es') (seg ++ code) := by
  induction h with
  | nil => exact h'
  | cons ho hy hx _ ih =>
    rw [List.append_assoc]
    exact .cons ho hy hx ih

theorem Ends.later {succs : List BlockId} (h : Ends p succs code) (hpq : Later A n p q) : Ends q succs code := by
  cases h with
  | jump hl => exact .jump (hpq.labels _ _ hl)
  | branch hcode hl hl' => exact .branch (hcode.later hpq) (hpq.labels _ _ hl) (hpq.labels _ _ hl')
  | leave hcode => exact .leave hcode

theorem Ends.ne_nil {succs : List BlockId} (h : Ends p succs code) : code ≠ [] := by
  cases h <;> simp

/-! ## Phis -/

theorem goes_shadowOf {i : Instruction} {y : VarId} {f : VarId → LowerBody α} {R : α → Point → Prop}
    (hy : p.scope.shadows[valueOf i]? = some y) (h : Goes S A n p (f y) R) :
    Goes S A n p (shadowOf i >>= f) R := by
  have heq : (p.scope.shadows[i.result.getD 0]?).getD 0 = y := congrArg (Option.getD · 0) hy
  subst heq
  exact ⟨h.ok, h.later, h.kept, h.post⟩

theorem goes_labelOf {l : Label} {f : Label → LowerBody α} {R : α → Point → Prop}
    (hl : p.scope.labels[id]? = some l) (h : Goes S A n p (f l) R) : Goes S A n p (labelOf id >>= f) R := by
  have heq : (p.scope.labels[id]?).getD 0 = l := congrArg (Option.getD · 0) hl
  subst heq
  exact ⟨h.ok, h.later, h.kept, h.post⟩

theorem goes_lowerPhi {i : Instruction} (hp : Ok p) (hi : i.isPhi = true) (hshadowed : Shadowed p i) :
    Goes S Stmt.Straight n p (lowerInstr i) fun _ q => ∃ copies, Heads q [i] copies ∧ q.code = p.code ++ copies := by
  refine (goes_setPos hp i.pos).bind fun _ p₁ hp₁ h₁ hsame => ?_
  rw [if_pos hi]
  refine (goes_varOf hp₁ (valueOf i)).bind fun x p₂ hp₂ h₂ ⟨hx, hcode⟩ => ?_
  obtain ⟨-, y, hy⟩ := (hshadowed.later h₁).later h₂
  refine goes_shadowOf hy ((goes_emit hp₂ trivial (mayWrite_value hp₂ rfl hx)).mono fun _ q _ hpq h => ?_)
  have hcopy : q.code = p.code ++ [.copy x y] := by rw [h.2, hcode, hsame.code]
  exact ⟨_, .cons (hpq.vars.old _ _ hx) (hpq.shadows.old _ _ hy) .nil, hcopy⟩

theorem goes_lowerPhis {is : List Instruction} (hp : Ok p) (his : ∀ i ∈ is, i.isPhi = true)
    (hshadowed : ∀ i ∈ is, Shadowed p i) :
    Goes S Stmt.Straight n p (is.forM lowerInstr) fun _ q => ∃ copies, Heads q is copies ∧ q.code = p.code ++ copies := by
  induction is generalizing p with
  | nil => exact goes_pure hp ⟨[], .nil, (List.append_nil _).symm⟩
  | cons i is ih =>
    refine (goes_lowerPhi hp (his i List.mem_cons_self) (hshadowed i List.mem_cons_self)).bind
      fun _ p₁ hp₁ h₁ ⟨first, hfirst, hcode⟩ => ?_
    refine (ih hp₁ (fun j hj => his j (List.mem_cons_of_mem i hj))
      fun j hj => (hshadowed j (List.mem_cons_of_mem i hj)).later h₁).mono fun _ q _ hpq ⟨rest, hrest, hcode'⟩ => ?_
    cases hfirst with
    | cons hx hy hnil =>
      cases hnil with
      | nil =>
        have hcopies : Heads q (i :: is) (_ :: rest) := .cons (hpq.vars.old _ _ hx) (hpq.shadows.old _ _ hy) hrest
        exact ⟨_, hcopies, by rw [hcode', hcode, List.append_assoc, List.singleton_append]⟩

theorem plain_lowerInstr {xs : List VarId} (i : Instruction) : Plain xs (lowerInstr i) := by
  refine (Plain.setPos i.pos).bind fun _ => .ite (.result fun x => ?_) (plain_instruction i)
  exact Plain.get.bind fun c => plain_define trivial rfl

/-- An operand is brought into a variable, and nothing else happens. -/
theorem goes_operandAt {i : Instruction} {o : Operand} (hp : Ok p) (ho : i.operand? k = some o) :
    Goes S Stmt.Straight p.numVars p (operandAt i k) fun x q =>
      ∃ code, Makes S q o code x ∧ q.code = p.code ++ code := by
  unfold operandAt
  rw [ho]
  exact (goes_operand (fun _ h => h) hp (Nat.le_refl _) o).mono fun x q _ _ ⟨code, hcode, _, hmakes⟩ =>
    ⟨code, hmakes, hcode⟩

theorem goes_assignPhi {i : Instruction} {edge : Nat} (hp : Ok p) (ho : (i.operand? edge).isSome)
    (hshadowed : Shadowed p i) :
    Goes S Stmt.Straight p.numVars p (assignPhi edge i) fun _ q =>
      ∃ code, Assigns S q [(edge, i)] code ∧ q.code = p.code ++ code := by
  obtain ⟨o, ho⟩ := Option.isSome_iff_exists.mp ho
  obtain ⟨-, y, hy⟩ := hshadowed
  refine goes_shadowOf hy ((goes_operandAt hp ho).bind' fun x p₁ hp₁ h₁ ⟨code, hmakes, hcode⟩ => ?_)
  have hy₁ := h₁.shadows.old _ _ hy
  have hwrite : MayWrite p₁.numVars p₁ (.copy y x) := by
    rintro z ⟨⟩
    exact ⟨hp₁.shadows_lt _ _ hy₁, Or.inr (Or.inr ⟨_, hy₁⟩)⟩
  refine (goes_emit hp₁ trivial hwrite).mono fun _ q _ hpq h => ?_
  have hassign : Assigns S q [(edge, i)] (code ++ [.copy y x]) :=
    .cons ho (hpq.shadows.old _ _ hy₁) (hmakes.later hpq) .nil
  exact ⟨_, hassign, by rw [h.2, hcode, List.append_assoc]⟩

/-- Assignments are made one after the other. -/
theorem goes_assigns {β : Type} {f : β → LowerBody Unit} {edges : β → List (Nat × Instruction)} {bs : List β}
    (hp : Ok p) (Good : Point → β → Prop)
    (hlater : ∀ p q b, Later Stmt.Straight p.numVars p q → Good p b → Good q b)
    (hf : ∀ p b, Ok p → Good p b → Goes S Stmt.Straight p.numVars p (f b) fun _ q =>
      ∃ code, Assigns S q (edges b) code ∧ q.code = p.code ++ code)
    (hbs : ∀ b ∈ bs, Good p b) :
    Goes S Stmt.Straight p.numVars p (bs.forM f) fun _ q =>
      ∃ code, Assigns S q (bs.flatMap edges) code ∧ q.code = p.code ++ code := by
  induction bs generalizing p with
  | nil => exact goes_pure hp ⟨[], .nil, (List.append_nil _).symm⟩
  | cons b bs ih =>
    refine (hf p b hp (hbs b List.mem_cons_self)).bind' fun _ p₁ hp₁ h₁ ⟨first, hfirst, hcode⟩ => ?_
    refine (ih hp₁ fun c hc => hlater p p₁ c h₁ (hbs c (List.mem_cons_of_mem b hc))).mono
      fun _ q _ hpq ⟨rest, hrest, hcode'⟩ => ?_
    exact ⟨first ++ rest, (hfirst.later hpq).append hrest, by rw [hcode', hcode, List.append_assoc]⟩

/-- The phis of the successors of a block, each with the edge from the block. -/
def outgoing (blocks : Array Block) (id : BlockId) : List (Nat × Instruction) :=
  (blocks.getD id default).succs.flatMap fun t =>
    (headPhis (blocks.getD t default)).map fun i => ((blocks.getD t default).preds.idxOf id, i)

theorem eraseDups_of_nodup {as : List BlockId} (h : as.Nodup) : as.eraseDups = as := by
  induction as with
  | nil => rfl
  | cons a as ih =>
    obtain ⟨ha, has⟩ := List.nodup_cons.mp h
    have hfilter : as.filter (fun b => !b == a) = as :=
      List.filter_eq_self.mpr fun b hb => by simpa using fun heq : b = a => ha (heq ▸ hb)
    rw [List.eraseDups_cons, hfilter, ih has]

theorem nodup_of_terminates {i : Instruction} {succs : List BlockId} (h : Terminates i succs) : succs.Nodup := by
  unfold Terminates at h
  split at h <;> simp_all

theorem goes_assignPhis (hp : Ok p) (hdistinct : (blocks.getD id default).succs.Nodup)
    (hphis : ∀ e ∈ outgoing blocks id, (e.2.operand? e.1).isSome ∧ Shadowed p e.2) :
    Goes S Stmt.Straight p.numVars p (assignPhis blocks id) fun _ q =>
      ∃ code, Assigns S q (outgoing blocks id) code ∧ q.code = p.code ++ code := by
  let edgesTo (t : BlockId) : List (Nat × Instruction) :=
    (headPhis (blocks.getD t default)).map fun i => ((blocks.getD t default).preds.idxOf id, i)
  let Good (p : Point) (e : Nat × Instruction) : Prop := (e.2.operand? e.1).isSome ∧ Shadowed p e.2
  have hlater (p q : Point) (e : Nat × Instruction) (hpq : Later Stmt.Straight p.numVars p q) (he : Good p e) :
      Good q e := ⟨he.1, he.2.later hpq⟩
  have hblock (p : Point) (t : BlockId) (hp : Ok p) (ht : ∀ e ∈ edgesTo t, Good p e) :
      Goes S Stmt.Straight p.numVars p
        ((headPhis (blocks.getD t default)).forM (assignPhi ((blocks.getD t default).preds.idxOf id))) fun _ q =>
          ∃ code, Assigns S q (edgesTo t) code ∧ q.code = p.code ++ code := by
    have hedges : edgesTo t = (headPhis (blocks.getD t default)).flatMap fun i =>
        [((blocks.getD t default).preds.idxOf id, i)] := List.map_eq_flatMap
    rw [hedges]
    refine goes_assigns hp (fun p i => Good p ((blocks.getD t default).preds.idxOf id, i))
      (fun p q i => hlater p q _) (fun p i hp hi => goes_assignPhi hp hi.1 hi.2) fun i hi => ?_
    exact ht _ (List.mem_map_of_mem hi)
  unfold assignPhis
  rw [eraseDups_of_nodup hdistinct]
  refine goes_assigns hp (fun p t => ∀ e ∈ edgesTo t, Good p e)
    (fun p q t hpq ht e he => hlater p q e hpq (ht e he)) hblock fun t ht e he => ?_
  exact hphis e (List.mem_flatMap.mpr ⟨t, ht, he⟩)

/-! ## Jumps -/

theorem goes_quiet {i : Instruction} (hp : Ok p) :
    Goes S Stmt.Straight p.numVars p (operandAt i k) fun _ q => ∃ code, Quiet q code ∧ q.code = p.code ++ code := by
  cases ho : i.operand? k with
  | some o => exact (goes_operandAt hp ho).mono fun x q _ _ ⟨code, hmakes, hcode⟩ => ⟨code, hmakes.quiet, hcode⟩
  | none =>
    unfold operandAt
    rw [ho]
    refine (goes_temp hp (Nat.le_refl _) 0).mono fun x q _ _ ⟨_, _, hcode⟩ => ⟨[], quiet_nil, ?_⟩
    rw [hcode, List.append_nil]

theorem stays_typeAt {i : Instruction} (hp : Ok p) : Goes S A n p (typeAt i k) fun _ q => q = p := by
  unfold typeAt
  split
  · exact ⟨hp, .refl A n p, .refl p, rfl⟩
  · exact ⟨hp, .refl A n p, .refl p, rfl⟩

/-- A statement that only jumps may come at any point. -/
theorem goes_jump (hp : Ok p) {s : Stmt Label} (hs : s.defined? = none) :
    Goes S (fun _ => True) n p (emit s) fun _ q => q.scope = p.scope ∧ q.code = p.code ++ [s] :=
  goes_emit hp trivial fun x hx => by
    rw [hs] at hx
    cases hx

/-- The action returns from the function after some statements. -/
def Leaves (S : Setting) (x : LowerBody Unit) : Prop :=
  ∀ p, Ok p → Goes S (fun _ => True) p.numVars p x fun _ q =>
    ∃ (v : Option VarId) (code : List (Stmt Label)), (∀ s ∈ code, s.Straight) ∧ q.code = p.code ++ (code ++ [.ret v])

theorem leaves_ret (v : Option VarId) : Leaves S (emit (.ret v)) := fun _ hp =>
  (goes_jump hp rfl).mono fun _ _ _ _ h => ⟨v, [], nofun, h.2⟩

theorem Leaves.after {x : LowerBody α} {f : α → LowerBody Unit} (hx : Plain [] x) (hf : ∀ a, Leaves S (f a)) :
    Leaves S (x >>= f) := by
  intro p hp
  have h := hx.passes (S := S) (A := Stmt.Straight) (fun _ h => h) p hp (Nat.le_refl _) nofun
  have hleaves := hf (p.result S x) (p.after S x) h.ok
  obtain ⟨new, hnew, hstraight⟩ := h.later.straight
  refine ⟨hleaves.ok, (h.later.weaken (Nat.le_refl _) fun _ _ => trivial).trans hleaves.later h.later.numVars,
    h.kept.trans hleaves.kept, ?_⟩
  obtain ⟨v, code, hcode, heq⟩ := hleaves.post
  refine ⟨v, new ++ code, fun s hs => (List.mem_append.mp hs).elim (hstraight s) (hcode s), ?_⟩
  refine heq.trans ?_
  rw [hnew, List.append_assoc, List.append_assoc]

theorem goes_terminator {b : Block} {i : Instruction} (hp : Ok p) (hi : Terminates i b.succs)
    (hlabels : ∀ t ∈ b.succs, ∃ l, p.scope.labels[t]? = some l) :
    Goes S (fun _ => True) p.numVars p (terminator b i) fun _ q =>
      ∃ ends, Ends q b.succs ends ∧ q.code = p.code ++ ends := by
  have hweak {β : Type} {p : Point} {x : LowerBody β} {Q : β → Point → Prop}
      (h : Goes S Stmt.Straight p.numVars p x Q) : Goes S (fun _ => True) p.numVars p x Q :=
    h.weaken (Nat.le_refl _) fun _ _ => trivial
  have hleave {x : LowerBody Unit} (hx : Leaves S x) (hsuccs : b.succs = []) :
      Goes S (fun _ => True) p.numVars p x fun _ q => ∃ ends, Ends q b.succs ends ∧ q.code = p.code ++ ends :=
    (hx p hp).mono fun _ q _ _ ⟨v, code, hcode, heq⟩ => ⟨_, hsuccs ▸ .leave hcode, heq⟩
  unfold terminator
  unfold Terminates at hi
  split at hi
  case _ t haction hsuccs =>
    rw [haction]
    obtain ⟨l, hl⟩ := hlabels t (by simp [hsuccs])
    have hget : b.succs.getD 0 0 = t := by simp [hsuccs]
    refine goes_labelOf (hget ▸ hl) ((goes_jump hp rfl).mono fun _ q _ _ h => ?_)
    exact ⟨_, hsuccs ▸ .jump (h.1 ▸ hl), h.2⟩
  case _ t u haction hsuccs =>
    rw [haction]
    obtain ⟨l, hl⟩ := hlabels t (by simp [hsuccs])
    obtain ⟨l', hl'⟩ := hlabels u (by simp [hsuccs])
    have hfirst : b.succs.getD 0 0 = t := by simp [hsuccs]
    have hsecond : b.succs.getD 1 0 = u := by simp [hsuccs]
    refine (hweak (goes_quiet hp)).bind' fun x p₁ hp₁ h₁ ⟨code, hquiet, hcode⟩ => ?_
    refine (stays_typeAt hp₁).bind' fun ty p₂ hp₂ h₂ heq => ?_
    subst heq
    refine (hweak (goes_literal (fun _ h => h) hp₂ (Nat.le_refl _) ty 0)).bind'
      fun z p₃ hp₃ h₃ ⟨hz, _, hcode₃⟩ => ?_
    have hquiet₃ : Quiet p₃ (code ++ [.literal z 0]) :=
      (hquiet.later h₃).append (quiet_singleton ⟨trivial, rfl, rfl⟩ rfl hz)
    have hl₃ := h₃.labels t l (h₁.labels t l hl)
    have hl₃' := h₃.labels u l' (h₁.labels u l' hl')
    refine goes_labelOf (hfirst ▸ hl₃) ((goes_jump hp₃ rfl).bind' fun _ p₄ hp₄ h₄ ⟨hscope, hcode₄⟩ => ?_)
    refine goes_labelOf (hsecond ▸ hscope ▸ hl₃') ((goes_jump hp₄ rfl).mono fun _ q _ h₅ h => ?_)
    have hends : Ends q [t, u] (code ++ [.literal z 0] ++ [.branch .ne x z l, .jump l']) :=
      .branch ((hquiet₃.later h₄).later h₅) (h₅.labels t l (h₄.labels t l hl₃)) (h₅.labels u l' (h₄.labels u l' hl₃'))
    exact ⟨_, hsuccs ▸ hends, by simp [h.2, hcode₄, hcode₃, hcode]⟩
  case _ haction hsuccs =>
    rw [haction]
    refine hleave (.after (plain_operands _) fun xs => ?_) hsuccs
    rcases xs with _ | ⟨x, _ | ⟨y, xs⟩⟩
    · exact leaves_ret none
    · exact leaves_ret (some x)
    · exact .after (.emit trivial nofun) fun _ => leaves_ret none
  case _ haction hsuccs =>
    rw [haction]
    refine hleave (.after (plain_operandAt i 0) fun x => ?_) hsuccs
    exact .after (.emit trivial nofun) fun _ => leaves_ret none
  case _ => exact hi.elim

theorem goes_endBlock (hp : Ok p) (hwf : WellFormedBlock blocks ids id) (hprepared : ∀ t ∈ ids, Prepared p blocks t)
    (hphis : ∀ e ∈ outgoing blocks id, (e.2.operand? e.1).isSome ∧ Shadowed p e.2) :
    Goes S (fun _ => True) p.numVars p (endBlock blocks id) fun _ q => ∃ assigns ends,
      Assigns S q (outgoing blocks id) assigns ∧ Ends q (blocks.getD id default).succs ends ∧
        q.code = p.code ++ (assigns ++ ends) := by
  obtain ⟨i, hlast, hi⟩ := hwf.ends
  unfold endBlock
  dsimp only
  rw [hlast]
  refine (goes_setPos hp i.pos).bind' fun _ p₁ hp₁ h₁ hsame => ?_
  have hassign := goes_assignPhis (S := S) hp₁ (nodup_of_terminates hi) fun e he => ⟨(hphis e he).1, (hphis e he).2.later h₁⟩
  refine (hassign.weaken (Nat.le_refl _) fun _ _ => trivial).bind' fun _ p₂ hp₂ h₂ ⟨assigns, hassigns, hcode⟩ => ?_
  refine (goes_terminator hp₂ hi fun t ht => ?_).mono fun _ q _ hpq ⟨ends, hends, hcode'⟩ => ?_
  · obtain ⟨l, hl⟩ := (hprepared t (hwf.succs t ht).1).label
    exact ⟨l, h₂.labels t l (h₁.labels t l hl)⟩
  · exact ⟨assigns, ends, hassigns.later hpq, hends, by rw [hcode', hcode, hsame.code, List.append_assoc]⟩

/-! ## Blocks -/

/-- Binds the label of a block and lowers the phis at its head. -/
def lowerHead (blocks : Array Block) (id : BlockId) : LowerBody Unit := do
  bindLabel id
  (headPhis (blocks.getD id default)).forM lowerInstr

/-- Besides, lowers its other instructions but for the last. -/
def lowerInstrs (blocks : Array Block) (id : BlockId) : LowerBody Unit := do
  bindLabel id
  (blocks.getD id default).instrs.dropLast.forM lowerInstr

/-- Positions in the code of a block. -/
structure Marks where
  head : Nat
  /-- After the copies of the phis. -/
  entered : Nat
  /-- After the instructions: what comes next leaves the block. -/
  tail : Nat
  finish : Nat

/-- The positions for a block that is lowered next: the number of statements when so much of it is lowered. -/
def marksAt (S : Setting) (blocks : Array Block) (p : Point) (id : BlockId) : Marks where
  head := p.code.length
  entered := (p.after S (lowerHead blocks id)).code.length
  tail := (p.after S (lowerInstrs blocks id)).code.length
  finish := (p.after S (lowerBlock blocks id)).code.length

/-- The positions for one of the blocks that are lowered next. -/
def marks (S : Setting) (blocks : Array Block) (p : Point) (ids : List BlockId) (id : BlockId) : Marks :=
  marksAt S blocks (p.after S ((ids.takeWhile (· != id)).forM (lowerBlock blocks))) id

/-- The code of the block stands at its positions. -/
structure Laid (S : Setting) (blocks : Array Block) (p : Point) (id : BlockId) (m : Marks) : Prop where
  label : ∃ l, p.scope.labels[id]? = some l ∧ p.place? l = some m.head
  begins : ∃ copies, Heads p (headPhis (blocks.getD id default)) copies ∧ p.Has m.head copies ∧
    m.entered = m.head + copies.length
  proceeds : ∃ code, (∀ s ∈ code, s.Straight) ∧ p.Has m.entered code ∧ m.tail = m.entered + code.length
  leaves : ∃ assigns ends, Assigns S p (outgoing blocks id) assigns ∧ Ends p (blocks.getD id default).succs ends ∧
    p.Has m.tail (assigns ++ ends) ∧ m.finish = m.tail + (assigns ++ ends).length

theorem Laid.later {m : Marks} (h : Laid S blocks p id m) (hpq : Later A p.numVars p q) : Laid S blocks q id m where
  label := by
    obtain ⟨l, hl, hplace⟩ := h.label
    exact ⟨l, hpq.labels id l hl, hpq.places l _ hplace⟩
  begins := by
    obtain ⟨copies, hheads, hhas, hentered⟩ := h.begins
    exact ⟨copies, hheads.later hpq, hhas.later hpq, hentered⟩
  proceeds := by
    obtain ⟨code, hstraight, hhas, htail⟩ := h.proceeds
    exact ⟨code, hstraight, hhas.later hpq, htail⟩
  leaves := by
    obtain ⟨assigns, ends, hassigns, hends, hhas, hfinish⟩ := h.leaves
    exact ⟨assigns, ends, hassigns.later hpq, hends.later hpq, hhas.later hpq, hfinish⟩

theorem forM_lowerInstr_append (is js : List Instruction) :
    (is ++ js).forM lowerInstr = (do is.forM lowerInstr; js.forM lowerInstr) := List.forM_append

theorem WellFormedBlock.lowerInstrs_eq (h : WellFormedBlock blocks ids id) : lowerInstrs blocks id = (do
    lowerHead blocks id
    ((blocks.getD id default).instrs.dropWhile (·.isPhi)).dropLast.forM lowerInstr) := by
  rw [lowerInstrs, h.instrs, forM_lowerInstr_append, lowerHead, bind_assoc]

theorem lowerBlock_eq (blocks : Array Block) (id : BlockId) : lowerBlock blocks id = (do
    lowerInstrs blocks id
    endBlock blocks id) := by
  rw [lowerInstrs, bind_assoc]
  rfl

/-- The point that an action comes to is the one after it. -/
theorem Comes.named {x : LowerBody α} {Q : α → Point → Prop} (h : Comes S A n p x Q) :
    Comes S A n p x fun a q => Q a q ∧ q = p.after S x := ⟨h.ok, h.later, h.post, rfl⟩

theorem comes_lowerHead (hp : Ok p) {l : Label} (hl : p.scope.labels[id]? = some l) (hfresh : p.place? l = none)
    (hphis : ∀ i ∈ headPhis (blocks.getD id default), Shadowed p i) :
    Comes S Stmt.Straight p.numVars p (lowerHead blocks id) fun _ q =>
      q.place? l = some p.code.length ∧ (∀ l' ≠ l, q.place? l' = p.place? l') ∧
        ∃ copies, Heads q (headPhis (blocks.getD id default)) copies ∧ q.code = p.code ++ copies := by
  refine (comes_bindLabel hp hl hfresh).bind' fun _ p₁ hp₁ h₁ ⟨_, hcode, hplace, hothers⟩ => ?_
  refine (goes_lowerPhis hp₁ (fun i hi => List.mem_takeWhile_imp hi) fun i hi => (hphis i hi).later h₁).comes.mono
    fun _ q _ hpq ⟨⟨copies, hheads, hcode'⟩, hkept⟩ => ⟨hpq.places l _ hplace, fun l' hl' => ?_, copies, hheads, ?_⟩
  · rw [hkept.places, hothers l' hl']
  · rw [hcode', hcode]

theorem comes_lowerBlock (hp : Ok p) (hwf : ∀ b ∈ ids, WellFormedBlock blocks ids b) (hid : id ∈ ids)
    (hprepared : ∀ t ∈ ids, Prepared p blocks t) {l : Label} (hl : p.scope.labels[id]? = some l)
    (hfresh : p.place? l = none) :
    Comes S (fun _ => True) p.numVars p (lowerBlock blocks id) fun _ q =>
      Laid S blocks q id (marksAt S blocks p id) ∧ ∀ l' ≠ l, q.place? l' = p.place? l' := by
  have hblock := hwf id hid
  have hshadowed {b : BlockId} (hb : b ∈ ids) {i : Instruction} (hi : i ∈ headPhis (blocks.getD b default)) :
      Shadowed p i := (hprepared b hb).phis i ((hwf b hb).phisOf_eq ▸ hi)
  have hphis : ∀ e ∈ outgoing blocks id, (e.2.operand? e.1).isSome ∧ Shadowed p e.2 := by
    intro e he
    obtain ⟨t, ht, hmem⟩ := List.mem_flatMap.mp he
    obtain ⟨i, hi, rfl⟩ := List.mem_map.mp hmem
    obtain ⟨hmem, hpred⟩ := hblock.succs t ht
    exact ⟨(hwf t hmem).edges i hi _ (List.idxOf_lt_length_iff.mpr hpred), hshadowed hmem hi⟩
  rw [lowerBlock_eq, hblock.lowerInstrs_eq, bind_assoc]
  -- the phis, the other instructions, and what leaves the block
  refine ((comes_lowerHead hp hl hfresh fun i hi => hshadowed hid hi).weaken (Nat.le_refl _)
    fun _ _ => trivial).named.bind' fun _ p₁ hp₁ h₁ ⟨⟨hplace, hothers, copies, hheads, hcode₁⟩, heq₁⟩ => ?_
  have hplain : Plain [] (((blocks.getD id default).instrs.dropWhile (·.isPhi)).dropLast.forM lowerInstr) :=
    .forM plain_lowerInstr _
  have hrest := hplain.passes (S := S) (A := Stmt.Straight) (fun _ h => h) p₁ hp₁ (Nat.le_refl _) nofun
  obtain ⟨code, hcode₂, hstraight⟩ := hrest.later.straight
  refine (hrest.weaken (Nat.le_refl _) fun _ _ => trivial).comes.named.bind' fun _ p₂ hp₂ h₂ ⟨⟨_, hkept₂⟩, heq₂⟩ => ?_
  rw [← heq₂] at hcode₂
  refine (goes_endBlock hp₂ hblock (fun t ht => ((hprepared t ht).later h₁).later h₂) fun e he =>
    ⟨(hphis e he).1, ((hphis e he).2.later h₁).later h₂⟩).comes.named.mono
      fun _ q _ hpq ⟨⟨⟨assigns, ends, hassigns, hends, hcode⟩, hkept⟩, heq⟩ => ?_
  have hentered : (marksAt S blocks p id).entered = p₁.code.length := by rw [heq₁]; rfl
  have htail : (marksAt S blocks p id).tail = p₂.code.length := by
    show (p.after S (lowerInstrs blocks id)).code.length = _
    rw [hblock.lowerInstrs_eq, heq₂, heq₁]
    rfl
  have hfinish : (marksAt S blocks p id).finish = q.code.length := by
    show (p.after S (lowerBlock blocks id)).code.length = _
    rw [lowerBlock_eq, hblock.lowerInstrs_eq, bind_assoc, heq, heq₂, heq₁]
    rfl
  refine ⟨⟨⟨l, ?_, ?_⟩, ⟨copies, (hheads.later h₂).later hpq, ?_, ?_⟩, ⟨code, hstraight, ?_, ?_⟩,
    ⟨assigns, ends, hassigns, hends, ?_, ?_⟩⟩, fun l' hl' => ?_⟩
  · exact hpq.labels id l (h₂.labels id l (h₁.labels id l hl))
  · exact hpq.places l _ (h₂.places l _ hplace)
  · exact ((has_of_append hcode₁).later h₂).later hpq
  · rw [hentered, hcode₁, List.length_append]
    rfl
  · exact hentered ▸ (has_of_append hcode₂).later hpq
  · rw [htail, hentered, hcode₂, List.length_append]
  · exact htail ▸ has_of_append hcode
  · rw [hfinish, htail, hcode, List.length_append]
  · rw [hkept.places, hkept₂.places, hothers l' hl']

theorem marks_self (S : Setting) (blocks : Array Block) (p : Point) (id : BlockId) (ids : List BlockId) :
    marks S blocks p (id :: ids) id = marksAt S blocks p id := by
  rw [marks, List.takeWhile_cons, if_neg (by simp)]
  rfl

theorem marks_cons {b : BlockId} (hb : id ≠ b) :
    marks S blocks p (id :: ids) b = marks S blocks (p.after S (lowerBlock blocks id)) ids b := by
  rw [marks, List.takeWhile_cons, if_pos (by simpa using hb)]
  rfl

/-- Blocks come to stand one after the other. -/
theorem comes_lowerBlocks {todo : List BlockId} (hp : Ok p) (hwf : ∀ b ∈ ids, WellFormedBlock blocks ids b)
    (htodo : ∀ id ∈ todo, id ∈ ids) (hdistinct : todo.Nodup) (hprepared : ∀ t ∈ ids, Prepared p blocks t)
    (hfresh : ∀ id ∈ todo, ∀ l, p.scope.labels[id]? = some l → p.place? l = none) :
    Comes S (fun _ => True) p.numVars p (todo.forM (lowerBlock blocks)) fun _ q =>
      (∀ id ∈ todo, Laid S blocks q id (marks S blocks p todo id) ∧ p.code.length ≤ (marks S blocks p todo id).head) ∧
        todo.Pairwise fun a b => (marks S blocks p todo a).finish ≤ (marks S blocks p todo b).head := by
  induction todo generalizing p with
  | nil => exact comes_pure hp ⟨fun _ h => absurd h List.not_mem_nil, .nil⟩
  | cons id todo ih =>
    obtain ⟨hid, hdistinct⟩ := List.nodup_cons.mp hdistinct
    have hmem := htodo id List.mem_cons_self
    obtain ⟨l, hl⟩ := (hprepared id hmem).label
    refine (comes_lowerBlock hp hwf hmem hprepared hl (hfresh id List.mem_cons_self l hl)).named.bind'
      fun _ p₁ hp₁ h₁ ⟨⟨hlaid, hothers⟩, heq⟩ => ?_
    have hfresh₁ : ∀ b ∈ todo, ∀ l', p₁.scope.labels[b]? = some l' → p₁.place? l' = none := by
      intro b hb l' hl'
      have hne : b ≠ id := fun heq => hid (heq ▸ hb)
      obtain ⟨l'', hl''⟩ := (hprepared b (htodo b (List.mem_cons_of_mem id hb))).label
      obtain rfl : l'' = l' := Option.some.inj ((h₁.labels b l'' hl'').symm.trans hl')
      rw [hothers l'' fun heq => hne (hp.labels_inj b id l (heq ▸ hl'') hl)]
      exact hfresh b (List.mem_cons_of_mem id hb) l'' hl''
    refine (ih hp₁ (fun b hb => htodo b (List.mem_cons_of_mem id hb)) hdistinct
      (fun t ht => (hprepared t ht).later h₁) hfresh₁).mono fun _ q _ hpq ⟨hall, hpairs⟩ => ?_
    have hself : marks S blocks p (id :: todo) id = marksAt S blocks p id := marks_self S blocks p id todo
    have hother {b : BlockId} (hb : b ∈ todo) : marks S blocks p (id :: todo) b = marks S blocks p₁ todo b := by
      have hne : id ≠ b := fun h => hid (h ▸ hb)
      rw [marks_cons hne, heq]
    have hfinish : (marks S blocks p (id :: todo) id).finish = p₁.code.length := by rw [hself, heq]; rfl
    obtain ⟨new, hnew, -⟩ := h₁.code
    have hle : p.code.length ≤ p₁.code.length := by rw [hnew, List.length_append]; exact Nat.le_add_right _ _
    refine ⟨fun b hb => ?_, List.pairwise_cons.mpr ⟨fun b hb => ?_, ?_⟩⟩
    · rcases List.mem_cons.mp hb with rfl | hb
      · rw [hself]
        exact ⟨hlaid.later hpq, Nat.le_refl _⟩
      · rw [hother hb]
        exact ⟨(hall b hb).1, Nat.le_trans hle (hall b hb).2⟩
    · rw [hfinish, hother hb]
      exact (hall b hb).2
    · refine hpairs.imp_of_mem fun {a b} ha hb hab => ?_
      rw [hother ha, hother hb]
      exact hab

/-! ## Bodies -/

/-- The point at which the blocks of a function are lowered. -/
def ready (S : Setting) (f : Func) (m : MethodId) (s : State) : Point :=
  ((start f m s).after S bindParams).after S prologue

/-- The positions of a block of the function. -/
def Func.marks (S : Setting) (f : Func) (m : MethodId) (s : State) (id : BlockId) : Marks :=
  Lowering.marks S (f.blocks.getD #[]) (ready S f m s) (blockIds f) id

/-- The body of the function stands in the method: some statements without jumps, then the blocks. -/
structure Layout (S : Setting) (f : Func) (m : MethodId) (s : State) (p : Point) : Prop where
  ok : Ok p
  method : p.scope.method = m
  params : ∀ x ∈ formals s m, ∃ v : ValueId, p.scope.vars[v]? = some x
  laid : ∀ id ∈ blockIds f, Laid S (f.blocks.getD #[]) p id (Func.marks S f m s id)
  apart : (blockIds f).Pairwise fun a b => (Func.marks S f m s a).finish ≤ (Func.marks S f m s b).head
  opening : ∃ code, (∀ s ∈ code, s.Straight) ∧ p.Has 0 code ∧ (Func.marks S f m s 0).head = code.length

theorem blockIds_eq_cons {f : Func} (h : 0 ∈ blockIds f) : ∃ ids, blockIds f = 0 :: ids := by
  obtain ⟨hmem, hp⟩ := List.mem_filter.mp h
  obtain ⟨n, hn⟩ := Nat.exists_eq_succ_of_ne_zero (Nat.ne_of_gt (List.mem_range.mp hmem))
  rw [blockIds, hn, List.range_succ_eq_map, List.filter_cons, if_pos hp]
  exact ⟨_, rfl⟩

/-- Lowering a function lays out its body. -/
theorem layout_body {f : Func} {m : MethodId} {s : State} (hf : WellFormed f) (hm : Ready f m s) :
    Layout S f m s ((start f m s).after S body) := by
  have hopens := hm.opens (S := S) hf.params
  have hprologue := comes_prologue (S := S) hopens rfl hf.values
  have hfunc : (ready S f m s).scope.func = f := hprologue.later.func
  have hbody : (start f m s).after S body =
      (ready S f m s).after S ((blockIds f).forM (lowerBlock (f.blocks.getD #[]))) := by
    unfold body
    rw [Point.after_bind, Point.after_bind, Point.after_get]
    show (ready S f m s).after S ((blockIds (ready S f m s).scope.func).forM
      (lowerBlock ((ready S f m s).scope.func.blocks.getD #[]))) = _
    rw [hfunc]
  obtain ⟨hprepared, hplaces⟩ := hprologue.post
  have hblocks := comes_lowerBlocks (S := S) hprologue.ok hf.blocks (fun _ h => h) (List.nodup_range.filter _)
    hprepared fun _ _ l _ => hplaces l
  obtain ⟨code, hcode, hstraight⟩ := hprologue.later.straight
  rw [hopens.code, List.nil_append] at hcode
  obtain ⟨ids, hids⟩ := blockIds_eq_cons hf.entry
  rw [hbody]
  refine ⟨hblocks.ok, hblocks.later.method.trans hprologue.later.method, fun x hx => ?_,
    fun id hid => (hblocks.post.1 id hid).1, hblocks.post.2, code, hstraight, ?_, ?_⟩
  · obtain ⟨v, hv⟩ := hopens.params x hx
    exact ⟨v, hblocks.later.vars.old v x (hprologue.later.vars.old v x hv)⟩
  · have hhas : (ready S f m s).Has 0 code := fun j t ht => by
      rw [Nat.zero_add]
      exact hcode ▸ ht
    exact hhas.later hblocks.later
  · rw [Func.marks, hids, marks_self]
    exact congrArg List.length hcode

end WholeProgram.Lowering
