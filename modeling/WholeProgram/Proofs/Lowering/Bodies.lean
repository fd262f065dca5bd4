import WholeProgram.Proofs.Lowering.Blocks
import WholeProgram.Proofs.Lowering.Declarations

/-!
# Bodies keep the invariant

While a body is lowered its blocks have labels, and each of these is awaited until the block is lowered.
Nothing else makes labels or binds them.

* `Steady` — an action keeps the invariant, and the labels of the blocks;
* `Plain.steady`, `steady_terminator` — so do all actions but those on labels;
* `Awaits` — the labels of blocks that are not lowered yet;
* `keeps_lowerFunction` — after a body no label is awaited.
-/

namespace WholeProgram.Lowering

open Ssa (TypeId FuncId GlobalId ValueId BlockId Operand Instruction Block Func)

variable {S : Setting} {done front : List Work} {awaited : MethodId → Label → Prop} {s : State} {p : Point}

/-- No method that there is is abstract. -/
theorem Invariant.concrete (h : Invariant S done front awaited s) (m : MethodId) :
    (s.builder.header m).isAbstract = false := by
  unfold Builder.header
  cases hd : s.builder.drafts[m]? with
  | none => rfl
  | some d => exact (h.settled m d hd).concrete

/-! ## Actions that are about no labels -/

/-- The function is the same, and its blocks have the same labels. -/
structure Fixed (c c' : Scope) : Prop where
  func : c'.func = c.func
  method : c'.method = c.method
  labels : c'.labels = c.labels

theorem Fixed.trans {c c' c'' : Scope} (h : Fixed c c') (h' : Fixed c' c'') : Fixed c c'' :=
  ⟨h'.func.trans h.func, h'.method.trans h.method, h'.labels.trans h.labels⟩

/-- The action keeps the invariant, and leaves labels alone. -/
structure Steady {α : Type} (x : LowerBody α) : Prop where
  fixed : ∀ (S : Setting) (p : Point), Fixed p.scope (p.after S x).scope
  keeps : ∀ (S : Setting) (done front : List Work) (awaited : MethodId → Label → Prop) (p : Point),
    Invariant S done front awaited p.state → Invariant S done front awaited (p.after S x).state

section

variable {α β : Type} {x : LowerBody α} {f : α → LowerBody β}

theorem steady_pure (a : α) : Steady (pure a : LowerBody α) :=
  ⟨fun _ _ => ⟨rfl, rfl, rfl⟩, fun _ _ _ _ _ hp => hp⟩

theorem Steady.bind (hx : Steady x) (hf : ∀ a, Steady (f a)) : Steady (x >>= f) :=
  ⟨fun S p => (hx.fixed S p).trans ((hf _).fixed S _),
    fun S done front awaited p hp => (hf _).keeps S done front awaited _ (hx.keeps S done front awaited p hp)⟩

theorem Steady.forM {f : α → LowerBody Unit} (hf : ∀ a, Steady (f a)) (as : List α) : Steady (as.forM f) := by
  induction as with
  | nil => exact steady_pure ()
  | cons a as ih => exact (hf a).bind fun _ => ih

theorem steady_get : Steady (get : LowerBody Scope) := ⟨fun _ _ => ⟨rfl, rfl, rfl⟩, fun _ _ _ _ _ hp => hp⟩

theorem steady_read : Steady (read : LowerBody Setting) := ⟨fun _ _ => ⟨rfl, rfl, rfl⟩, fun _ _ _ _ _ hp => hp⟩

theorem steady_getThe : Steady (getThe State : LowerBody State) :=
  ⟨fun _ _ => ⟨rfl, rfl, rfl⟩, fun _ _ _ _ _ hp => hp⟩

theorem steady_modify {g : Scope → Scope} (hg : ∀ c, Fixed c (g c)) : Steady (modify g : LowerBody Unit) :=
  ⟨fun _ p => hg p.scope, fun _ _ _ _ _ hp => hp⟩

theorem steady_mention {x : Lower α} (hx : Mention x) : Steady (liftM x : LowerBody α) :=
  ⟨fun _ _ => ⟨rfl, rfl, rfl⟩, fun _ _ _ _ p hp => hx.keeps p.state hp⟩

/-- A statement stands for no label that is not awaited. -/
theorem steady_emit {s : Stmt Label} (hs : s.Conditional) : Steady (emit s) := by
  refine ⟨fun _ _ => ⟨rfl, rfl, rfl⟩, fun S done front awaited p hp => ?_⟩
  have hadd : p.state.builder.add p.scope.method s = p.state.builder.append p.scope.method s := by
    rw [Builder.add, if_neg (by simp [hp.concrete])]
  have hstate : (p.after S (emit s)).state = { p.state with builder := p.state.builder.add p.scope.method s } := rfl
  rw [hstate, hadd]
  exact hp.modify p.scope.method p.state.builder.vars _ (fun d _ hd => hd.push hs) fun _ _ _ h => h

theorem steady_newVar (name : String) (ty : Ty) : Steady (newVar name ty) := by
  refine ⟨fun _ _ => ⟨rfl, rfl, rfl⟩, fun S done front awaited p hp => ?_⟩
  exact hp.modify p.scope.method _ _ (fun d _ hd => hd.congr rfl) fun _ _ _ h => h

theorem steady_setPos (pos : Option String) : Steady (setPos pos) := by
  refine ⟨fun _ _ => ⟨rfl, rfl, rfl⟩, fun S done front awaited p hp => ?_⟩
  exact hp.modify p.scope.method p.state.builder.vars _ (fun d _ hd => hd.congr rfl) fun _ _ _ h => h

theorem steady_temp (t : TypeId) : Steady (temp t) := by
  refine steady_get.bind fun c => (steady_modify fun c => ?_).bind fun _ => ?_
  · exact ⟨rfl, rfl, rfl⟩
  · exact (steady_mention (.type t)).bind fun ty => steady_newVar _ ty

theorem steady_varOf (v : ValueId) : Steady (varOf v) := by
  refine steady_get.bind fun c => ?_
  split
  · exact steady_pure _
  · refine (steady_mention (.type _)).bind fun ty => (steady_newVar _ ty).bind fun x => ?_
    exact (steady_modify (by exact fun _ => ⟨rfl, rfl, rfl⟩)).bind fun _ => steady_pure x

theorem Plain.steady {xs : List VarId} (h : Plain xs x) : Steady x := by
  induction h with
  | pure a => exact steady_pure a
  | bind _ _ ihx ihf => exact ihx.bind ihf
  | get => exact steady_get
  | read => exact steady_read
  | getThe => exact steady_getThe
  | mention hx => exact steady_mention hx
  | emit hs _ => exact steady_emit hs.conditional
  | setPos pos => exact steady_setPos pos
  | temp _ ih => exact (steady_temp _).bind ih
  | varOf _ ih => exact (steady_varOf _).bind ih

end

/-! ## Blocks but for their labels -/

theorem steady_operandAt (i : Instruction) (k : Nat) : Steady (operandAt i k) := (@plain_operandAt [] i k).steady

theorem steady_labelOf (id : BlockId) : Steady (labelOf id) := steady_get.bind fun _ => steady_pure _

theorem steady_shadowOf (i : Instruction) : Steady (shadowOf i) := steady_get.bind fun _ => steady_pure _

theorem steady_assignPhis (blocks : Array Block) (id : BlockId) : Steady (assignPhis blocks id) := by
  refine .forM (fun succ => .forM (fun phi => ?_) _) _
  exact (steady_shadowOf phi).bind fun shadow => (steady_operandAt phi _).bind fun x => steady_emit trivial

theorem steady_terminator (b : Block) (i : Instruction) : Steady (terminator b i) := by
  unfold terminator
  split
  · exact (steady_labelOf _).bind fun l => steady_emit trivial
  · refine (steady_operandAt i 0).bind fun cond => (@plain_typeAt [] i 0).steady.bind fun t => ?_
    refine (@plain_literal [] t 0).steady.bind fun z => (steady_labelOf _).bind fun l => ?_
    exact (steady_emit (by rfl)).bind fun _ => (steady_labelOf _).bind fun l' => steady_emit trivial
  · refine (@plain_operands [] _).steady.bind fun xs => ?_
    split
    · exact steady_emit trivial
    · exact steady_emit trivial
    · exact (steady_emit (by trivial)).bind fun _ => steady_emit trivial
  · exact (steady_operandAt i 0).bind fun x => (steady_emit (by trivial)).bind fun _ => steady_emit trivial
  · exact steady_pure ()

theorem steady_endBlock (blocks : Array Block) (id : BlockId) : Steady (endBlock blocks id) := by
  unfold endBlock
  dsimp only
  split
  · exact (steady_setPos _).bind fun _ => (steady_assignPhis blocks id).bind fun _ => steady_terminator _ _
  · exact steady_pure ()

theorem steady_makeShadow (phi : Instruction) : Steady (makeShadow phi) := by
  refine (steady_varOf _).bind fun _ => steady_get.bind fun c => (steady_mention (.type _)).bind fun ty => ?_
  refine (steady_newVar _ ty).bind fun x => steady_modify fun c => ?_
  exact ⟨rfl, rfl, rfl⟩

/-! ## Labels -/

/-- The labels of these blocks of the method. -/
def Awaits (c : Scope) (ids : List BlockId) (m : MethodId) (l : Label) : Prop :=
  m = c.method ∧ ∃ id ∈ ids, c.labels[id]? = some l

theorem awaits_nil (c : Scope) : Awaits c [] = fun _ _ => False := by
  funext m l
  simp [Awaits]

theorem Fixed.awaits {c c' : Scope} (h : Fixed c c') (ids : List BlockId) : Awaits c' ids = Awaits c ids := by
  funext m l
  rw [Awaits, Awaits, h.method, h.labels]

/-- Actions that are about no labels may come between those that are. -/
theorem Steady.awaits {α : Type} {x : LowerBody α} {ids : List BlockId} (hx : Steady x)
    (hp : Invariant S done front (Awaits p.scope ids) p.state) :
    Invariant S done front (Awaits (p.after S x).scope ids) (p.after S x).state := by
  rw [(hx.fixed S p).awaits ids]
  exact hx.keeps S done front _ p hp

/-- The label of a new block is awaited. -/
theorem Invariant.makeLabel {ids : List BlockId} {id : BlockId} (hid : id ∉ ids)
    (hp : Invariant S done front (Awaits p.scope ids) p.state) :
    Invariant S done front (Awaits (p.after S (makeLabel id)).scope (ids ++ [id])) (p.after S (makeLabel id)).state := by
  refine hp.modify p.scope.method p.state.builder.vars _ (fun d hd hsettled => ⟨hsettled.concrete, hsettled.conditional, fun l hl hnone => ?_⟩)
    fun k l hk h => absurd h.1 hk
  have hlabels : (p.after S (Lowering.makeLabel id)).scope.labels = p.scope.labels.insert id d.labels.size := by
    show p.scope.labels.insert id ((p.state.builder.drafts[p.scope.method]?.map (·.labels.size)).getD 0) = _
    rw [hd]
    rfl
  rw [place?_newLabel] at hnone
  refine ⟨rfl, ?_⟩
  rw [hlabels]
  rw [Array.size_push] at hl
  rcases Nat.lt_succ_iff_lt_or_eq.mp hl with hlt | rfl
  · obtain ⟨-, b, hb, hbl⟩ := hsettled.placed l hlt hnone
    have hne : id ≠ b := fun heq => hid (heq ▸ hb)
    refine ⟨b, List.mem_append_left _ hb, ?_⟩
    rw [Std.HashMap.getElem?_insert, if_neg (by simpa using hne)]
    exact hbl
  · exact ⟨id, List.mem_append_right _ List.mem_cons_self, Std.HashMap.getElem?_insert_self⟩

/-- All blocks get labels. -/
theorem Invariant.prepareBlocks (blocks : Array Block) {ids ids' : List BlockId} (hdistinct : (ids ++ ids').Nodup)
    (hp : Invariant S done front (Awaits p.scope ids) p.state) :
    (p.after S (ids'.forM (prepareBlock blocks))).scope.func = p.scope.func ∧
      Invariant S done front (Awaits (p.after S (ids'.forM (prepareBlock blocks))).scope (ids ++ ids'))
        (p.after S (ids'.forM (prepareBlock blocks))).state := by
  induction ids' generalizing p ids with
  | nil =>
    rw [List.append_nil]
    exact ⟨rfl, hp⟩
  | cons id ids' ih =>
    have hid : id ∉ ids := fun hmem => (List.nodup_append.mp hdistinct).2.2 id hmem id List.mem_cons_self rfl
    have hshadows : Steady (((blocks.getD id default).instrs.filter (·.isPhi)).forM makeShadow) :=
      .forM steady_makeShadow _
    have hstep := hshadows.awaits (hp.makeLabel hid)
    rw [List.append_cons] at hdistinct ⊢
    obtain ⟨hfunc, hrest⟩ := ih hdistinct hstep
    refine ⟨hfunc.trans ?_, hrest⟩
    exact (hshadows.fixed S (p.after S (Lowering.makeLabel id))).func

/-- The label of a block that is lowered next is awaited no more. -/
theorem Invariant.bindLabel {ids : List BlockId} {id : BlockId}
    (hp : Invariant S done front (Awaits p.scope (id :: ids)) p.state) :
    Invariant S done front (Awaits (p.after S (bindLabel id)).scope ids) (p.after S (bindLabel id)).state := by
  refine hp.modify p.scope.method p.state.builder.vars _ (fun d _ hsettled => ⟨hsettled.concrete, hsettled.conditional, fun l hl hnone => ?_⟩)
    fun k l hk h => absurd h.1 hk
  have hne : l ≠ (p.scope.labels[id]?).getD 0 := by
    rintro rfl
    rw [Draft.place?, if_pos List.mem_cons_self] at hnone
    cases hnone
  have hold : d.place? l = none := by
    have hsame : ({ d with pending := (p.scope.labels[id]?).getD 0 :: d.pending } : Draft).place? l = d.place? l := by
      simp [Draft.place?, hne]
    exact hsame.symm.trans hnone
  obtain ⟨-, b, hb, hbl⟩ := hsettled.placed l hl hold
  refine ⟨rfl, b, ?_, hbl⟩
  rcases List.mem_cons.mp hb with rfl | hb
  · rw [hbl] at hne
    exact absurd rfl hne
  · exact hb

/-- All labels are bound when the blocks are lowered. -/
theorem Invariant.lowerBlocks {blocks : Array Block} {ids : List BlockId}
    (hp : Invariant S done front (Awaits p.scope ids) p.state) :
    Invariant S done front (fun _ _ => False) (p.after S (ids.forM (lowerBlock blocks))).state := by
  induction ids generalizing p with
  | nil =>
    rw [awaits_nil] at hp
    exact hp
  | cons id ids ih =>
    have hrest : Steady (do
        (blocks.getD id default).instrs.dropLast.forM lowerInstr
        endBlock blocks id) :=
      (Steady.forM (fun i => (@plain_lowerInstr [] i).steady) _).bind fun _ => steady_endBlock blocks id
    exact ih (hrest.awaits hp.bindLabel)

/-! ## Functions -/

theorem steady_bindParams : Steady bindParams := by
  refine steady_get.bind fun c => steady_getThe.bind fun s => steady_get.bind fun c' => steady_modify fun c => ?_
  exact ⟨rfl, rfl, rfl⟩

/-- Before the blocks are lowered, their labels are awaited. -/
theorem Invariant.prologue {f : Func} (hp : Invariant S done front (fun _ _ => False) p.state)
    (hf : p.scope.func = f) :
    (p.after S prologue).scope.func = f ∧
      Invariant S done front (Awaits (p.after S prologue).scope (blockIds f)) (p.after S prologue).state := by
  subst hf
  have hvars : Steady (p.scope.func.freeVars.forM fun v => discard (varOf v)) :=
    .forM (fun v => (@plain_varOf [] v).discard.steady) _
  have hanons : Steady (p.scope.func.anons.forM fun g => discard (liftM (methodFor g) : LowerBody MethodId)) :=
    .forM (fun g => (@Plain.mention _ [] _ (.method g)).discard.steady) _
  have hdistinct : ([] ++ blockIds p.scope.func).Nodup := List.nodup_range.filter _
  rw [← awaits_nil p.scope] at hp
  obtain ⟨hfunc, hprepared⟩ :=
    (hanons.awaits (S := S) (hvars.awaits hp)).prepareBlocks (p.scope.func.blocks.getD #[]) hdistinct
  rw [List.nil_append] at hprepared
  have hopened := hfunc.trans ((hanons.fixed S _).func.trans (hvars.fixed S p).func)
  rw [Lowering.prologue, Point.after_get, Point.after_bind, Point.after_bind, Point.after_bind]
  -- what comes after the labels is about none
  have hrest {x : LowerBody Unit} (hx : Steady x) := And.intro ((hx.fixed S _).func.trans hopened) (hx.awaits hprepared)
  refine hrest ?_
  split
  · refine steady_read.bind fun S' => ?_
    split
    · exact .forM (fun member : String × Ssa.Member => (@plain_allocateMember [] member.2).steady) _
    · exact steady_pure ()
  · exact steady_pure ()

/-- No label is awaited after a body. -/
theorem Invariant.body (hp : Invariant S done front (fun _ _ => False) p.state) :
    Invariant S done front (fun _ _ => False) (p.after S body).state := by
  have hparams := steady_bindParams.keeps S done front _ p hp
  obtain ⟨hfunc, hprologue⟩ := hparams.prologue (S := S) rfl
  rw [Lowering.body, Point.after_bind, Point.after_bind, Point.after_get]
  rw [← hfunc] at hprologue
  exact hprologue.lowerBlocks

theorem keeps_lowerFunction (f : FuncId) (m : MethodId) (h : Invariant S done front (fun _ _ => False)
    { s with functions := s.functions + 1 }) :
    Invariant S done front (fun _ _ => False) (lowerFunction f m S s).2 :=
  Invariant.body (p := start (S.source.func f) m { s with functions := s.functions + 1 }) h

end WholeProgram.Lowering
