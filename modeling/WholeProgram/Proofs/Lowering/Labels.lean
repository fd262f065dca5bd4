import Mathlib.Data.List.Nodup
import WholeProgram.Proofs.Lowering.Instructions

/-!
# Labels and shadows

Before the blocks of a function are lowered, each gets a label and its phis get their shadows. While a
block is lowered its label is bound to the code so far.

* `comes_makeLabel`, `comes_bindLabel` — the actions on labels;
* `Ready.opens` — the parameters of the function become those of the method;
* `comes_prologue` — what holds before the blocks are lowered: `Prepared`.
-/

namespace WholeProgram.Lowering

open Ssa (TypeId FuncId GlobalId ValueId BlockId Operand Instruction Block Func)

variable {S : Setting} {A : Stmt Label → Prop} {n : Nat} {p q : Point} {id : BlockId} {l : Label}

/-! ## Labels -/

/-- The variables and the code are the same, and so are the labels that are known and where they stand. -/
structure Relabels (p q : Point) : Prop where
  func : q.scope.func = p.scope.func
  method : q.scope.method = p.scope.method
  vars : q.scope.vars = p.scope.vars
  shadows : q.scope.shadows = p.scope.shadows
  numVars : q.numVars = p.numVars
  globals : q.state.globals = p.state.globals
  labels : ∀ (b : BlockId) (l : Label), p.scope.labels[b]? = some l → q.scope.labels[b]? = some l
  places : ∀ l t, p.place? l = some t → q.place? l = some t
  draft : ∃ d d', p.draft? = some d ∧ q.draft? = some d' ∧ d'.code = d.code ∧
    d'.header.receiver = d.header.receiver ∧ d'.header.params = d.header.params

theorem Relabels.code (h : Relabels p q) : q.code = p.code := by
  obtain ⟨d, d', hd, hd', hcode, -⟩ := h.draft
  simp [Point.code, hd, hd', hcode]

theorem Relabels.later (h : Relabels p q) : Later A n p q where
  func := h.func
  method := h.method
  numVars := Nat.le_of_eq h.numVars.symm
  vars := by rw [h.vars]; exact .refl _ _
  shadows := by rw [h.shadows]; exact .refl _ _
  labels := h.labels
  globals g f hf := h.globals ▸ hf
  places := h.places
  header := by
    obtain ⟨d, d', hd, hd', -, hreceiver, hparams⟩ := h.draft
    simp [hd, hd', hreceiver, hparams]
  code := ⟨[], by rw [h.code, List.append_nil], nofun⟩
  free x _ hx :=
    ⟨⟨h.numVars ▸ hx.lt, h.vars ▸ hx.vars, h.shadows ▸ hx.shadows⟩, h.code ▸ hx.code⟩

theorem Relabels.ok (h : Relabels p q) (hp : Ok p)
    (hdraft : ∃ d, q.draft? = some d ∧ d.Waits ∧
      ∀ (b : BlockId) (l : Label), q.scope.labels[b]? = some l → l < d.labels.size)
    (hinj : ∀ (b c : BlockId) (l : Label), q.scope.labels[b]? = some l → q.scope.labels[c]? = some l → b = c) :
    Ok q where
  draft := hdraft
  code s hs x hx := h.numVars ▸ hp.code s (h.code ▸ hs) x hx
  vars_lt := by rw [h.vars, h.numVars]; exact hp.vars_lt
  shadows_lt := by rw [h.shadows, h.numVars]; exact hp.shadows_lt
  vars_inj := by rw [h.vars]; exact hp.vars_inj
  shadows_inj := by rw [h.shadows]; exact hp.shadows_inj
  apart := by rw [h.vars, h.shadows]; exact hp.apart
  labels_inj := hinj

/-- A label stands for nothing when it is made. -/
theorem place?_newLabel (d : Draft) (l : Label) :
    ({ d with labels := d.labels.push none } : Draft).place? l = d.place? l := by
  unfold Draft.place?
  dsimp only
  split
  · rfl
  · rw [Array.getElem?_push]
    split
    · rename_i hl
      subst hl
      simp
    · rfl

theorem comes_makeLabel (hp : Ok p) (hid : p.scope.labels[id]? = none) :
    Comes S A n p (makeLabel id) fun _ q => (∃ l, q.scope.labels = p.scope.labels.insert id l) ∧
      q.scope.vars = p.scope.vars ∧ q.scope.shadows = p.scope.shadows ∧ q.code = p.code ∧
      ∀ l, q.place? l = p.place? l := by
  obtain ⟨d, hd, hwaits, hbound⟩ := hp.draft
  have hd' : (p.after S (makeLabel id)).draft? = some { d with labels := d.labels.push none } :=
    getElem?_modify_eq_some.mpr ⟨d, hd, if_pos rfl⟩
  have hlabels : (p.after S (makeLabel id)).scope.labels = p.scope.labels.insert id d.labels.size := by
    show p.scope.labels.insert id ((p.draft?.map (·.labels.size)).getD 0) = _
    rw [hd]
    rfl
  have hplaces (l : Label) : (p.after S (makeLabel id)).place? l = p.place? l := by
    rw [Point.place?, hd', Option.bind_some, place?_newLabel, Point.place?, hd, Option.bind_some]
  have hget (b : BlockId) (l : Label) : (p.after S (makeLabel id)).scope.labels[b]? = some l ↔
      (b = id ∧ l = d.labels.size) ∨ (b ≠ id ∧ p.scope.labels[b]? = some l) := by
    rw [hlabels, getElem?_insert_eq_some]
    grind
  have hrelabels : Relabels p (p.after S (makeLabel id)) :=
    { func := rfl, method := rfl, vars := rfl, shadows := rfl, numVars := rfl, globals := rfl
      labels := fun b l hl => (hget b l).mpr (Or.inr ⟨fun heq => by simp [heq, hid] at hl, hl⟩)
      places := fun l t ht => (hplaces l).trans ht
      draft := ⟨d, _, hd, hd', rfl, rfl, rfl⟩ }
  refine ⟨hrelabels.ok hp ⟨_, hd', fun l hl => ?_, fun b l hl => ?_⟩ fun b c l hb hc => ?_, hrelabels.later,
    ⟨_, hlabels⟩, rfl, rfl, hrelabels.code, hplaces⟩
  · rw [Array.size_push]
    exact Nat.lt_succ_of_lt (hwaits l hl)
  · rw [Array.size_push]
    rcases (hget b l).mp hl with ⟨-, rfl⟩ | ⟨-, hl⟩
    · exact Nat.lt_succ_self _
    · exact Nat.lt_succ_of_lt (hbound b l hl)
  · rcases (hget b l).mp hb with ⟨rfl, rfl⟩ | ⟨-, hb'⟩ <;> rcases (hget c _).mp hc with ⟨rfl, heq⟩ | ⟨-, hc'⟩
    · rfl
    · exact absurd (hbound c _ hc') (Nat.lt_irrefl _)
    · exact absurd (heq ▸ hbound b _ hb') (Nat.lt_irrefl _)
    · exact hp.labels_inj b c l hb' hc'

/-- A label that stands for nothing yet is bound to the code so far. -/
theorem comes_bindLabel (hp : Ok p) (hl : p.scope.labels[id]? = some l) (hfresh : p.place? l = none) :
    Comes S A n p (bindLabel id) fun _ q => q.scope = p.scope ∧ q.code = p.code ∧
      q.place? l = some p.code.length ∧ ∀ l' ≠ l, q.place? l' = p.place? l' := by
  obtain ⟨d, hd, hwaits, hbound⟩ := hp.draft
  have hd' : (p.after S (bindLabel id)).draft? = some { d with pending := l :: d.pending } := by
    have hlabel : (p.scope.labels[id]?).getD 0 = l := by rw [hl]; rfl
    refine getElem?_modify_eq_some.mpr ⟨d, hd, (if_pos rfl).trans ?_⟩
    rw [hlabel]
  have hplace : (p.after S (bindLabel id)).place? l = some p.code.length := by
    simp [Point.place?, hd', Draft.place?, Point.code, hd]
  have hothers (l' : Label) (hne : l' ≠ l) : (p.after S (bindLabel id)).place? l' = p.place? l' := by
    simp [Point.place?, hd', hd, Draft.place?, hne]
  have hrelabels : Relabels p (p.after S (bindLabel id)) :=
    { func := rfl, method := rfl, vars := rfl, shadows := rfl, numVars := rfl, globals := rfl
      labels := fun _ _ hl => hl
      places := fun l' t ht => by
        by_cases heq : l' = l
        · rw [heq, hfresh] at ht
          cases ht
        · rw [hothers l' heq, ht]
      draft := ⟨d, _, hd, hd', rfl, rfl, rfl⟩ }
  refine ⟨hrelabels.ok hp ⟨_, hd', fun l' hl' => ?_, hbound⟩ hp.labels_inj, hrelabels.later, rfl, hrelabels.code,
    hplace, hothers⟩
  rcases List.mem_cons.mp hl' with rfl | hl'
  · exact hbound id l' hl
  · exact hwaits l' hl'

/-! ## Shadows -/

/-- The value that an instruction defines. -/
def valueOf (i : Instruction) : ValueId := i.result.getD 0

def phisOf (b : Block) : List Instruction := b.instrs.filter (·.isPhi)

/-- The values that phis of the block define. -/
def phiValues (b : Block) : List ValueId := (phisOf b).map valueOf

/-- The phi has a variable and a shadow. -/
def Shadowed (p : Point) (i : Instruction) : Prop :=
  (∃ x, p.scope.vars[valueOf i]? = some x) ∧ ∃ x, p.scope.shadows[valueOf i]? = some x

theorem Shadowed.later {i : Instruction} (h : Shadowed p i) (hpq : Later A n p q) : Shadowed q i := by
  obtain ⟨⟨x, hx⟩, y, hy⟩ := h
  exact ⟨⟨x, hpq.vars.old _ _ hx⟩, y, hpq.shadows.old _ _ hy⟩

/-- There are shadows only of the given values besides those before, and labels are left alone. -/
structure Shadows (p q : Point) (vs : List ValueId) : Prop where
  others : ∀ v, v ∉ vs → q.scope.shadows[v]? = p.scope.shadows[v]?
  labels : q.scope.labels = p.scope.labels
  places : ∀ l, q.place? l = p.place? l

theorem comes_makeShadow (hp : Ok p) {i : Instruction} (hi : p.scope.shadows[valueOf i]? = none) :
    Comes S A n p (makeShadow i) fun _ q => Shadowed q i ∧ Shadows p q [valueOf i] := by
  have hvar := goes_varOf (S := S) (A := A) (n := n) hp (valueOf i)
  refine hvar.comes.bind fun x p₁ hp₁ h₁ ⟨⟨hx, _⟩, hkept₁⟩ => comes_get ?_
  refine (goes_lift hp₁ (framed_tyOf _)).comes.bind fun ty p₂ hp₂ h₂ ⟨_, hkept₂⟩ => ?_
  have hkept := hkept₁.trans hkept₂
  have hnone : p₂.scope.shadows[valueOf i]? = none := by rw [hkept.shadows, hi]
  refine (comes_bindShadow hp₂ hnone _ ty).mono fun _ q hq hpq ⟨⟨y, hy⟩, hlabels, hsame⟩ => ?_
  have hshadowed : q.scope.shadows[valueOf i]? = some y := by
    rw [hy]
    exact Std.HashMap.getElem?_insert_self
  refine ⟨⟨⟨x, hpq.vars.old _ _ (h₂.vars.old _ _ hx)⟩, y, hshadowed⟩, fun v hv => ?_, hlabels.trans hkept.labels,
    fun l => (hsame.place? l).trans (hkept.places l)⟩
  have hne : valueOf i ≠ v := fun heq => hv (List.mem_singleton.mpr heq.symm)
  rw [hy, Std.HashMap.getElem?_insert, if_neg (by simpa using hne), hkept.shadows]

theorem comes_makeShadows {is : List Instruction} (hp : Ok p) (hdistinct : (is.map valueOf).Nodup)
    (hnone : ∀ i ∈ is, p.scope.shadows[valueOf i]? = none) :
    Comes S A n p (is.forM makeShadow) fun _ q => (∀ i ∈ is, Shadowed q i) ∧ Shadows p q (is.map valueOf) := by
  induction is generalizing p with
  | nil =>
    have hsame : Shadows p p ([].map valueOf) := ⟨fun _ _ => rfl, rfl, fun _ => rfl⟩
    exact comes_pure hp ⟨fun _ h => absurd h List.not_mem_nil, hsame⟩
  | cons i is ih =>
    obtain ⟨hi, hdistinct⟩ := List.nodup_cons.mp hdistinct
    refine (comes_makeShadow hp (hnone i List.mem_cons_self)).bind fun _ p₁ hp₁ h₁ ⟨hshadowed, hshadows⟩ => ?_
    have hnone₁ (j : Instruction) (hj : j ∈ is) : p₁.scope.shadows[valueOf j]? = none := by
      rw [hshadows.others _ fun heq => hi (List.mem_singleton.mp heq ▸ List.mem_map_of_mem hj)]
      exact hnone j (List.mem_cons_of_mem i hj)
    refine (ih hp₁ hdistinct hnone₁).mono fun _ q _ hpq ⟨hrest, hothers⟩ => ⟨fun j hj => ?_, fun v hv => ?_, ?_, ?_⟩
    · rcases List.mem_cons.mp hj with rfl | hj
      · exact hshadowed.later hpq
      · exact hrest j hj
    · have hvi : v ∉ [valueOf i] := fun h => hv (List.mem_singleton.mp h ▸ List.mem_cons_self)
      rw [hothers.others v fun h => hv (List.mem_cons_of_mem _ h), hshadows.others v hvi]
    · rw [hothers.labels, hshadows.labels]
    · exact fun l => (hothers.places l).trans (hshadows.places l)

/-- The block has a label, and its phis have shadows. -/
structure Prepared (p : Point) (blocks : Array Block) (id : BlockId) : Prop where
  label : ∃ l, p.scope.labels[id]? = some l
  phis : ∀ i ∈ phisOf (blocks.getD id default), Shadowed p i

theorem Prepared.later {blocks : Array Block} (h : Prepared p blocks id) (hpq : Later A n p q) :
    Prepared q blocks id := by
  obtain ⟨l, hl⟩ := h.label
  exact ⟨⟨l, hpq.labels id l hl⟩, fun i hi => (h.phis i hi).later hpq⟩

theorem comes_prepareBlocks {blocks : Array Block} {ids : List BlockId} (hp : Ok p) (hdistinct : ids.Nodup)
    (hvalues : (ids.flatMap fun id => phiValues (blocks.getD id default)).Nodup)
    (hlabels : ∀ id ∈ ids, p.scope.labels[id]? = none)
    (hshadows : ∀ v ∈ ids.flatMap fun id => phiValues (blocks.getD id default), p.scope.shadows[v]? = none) :
    Comes S A n p (ids.forM (prepareBlock blocks)) fun _ q =>
      (∀ id ∈ ids, Prepared q blocks id) ∧ ∀ l, q.place? l = p.place? l := by
  induction ids generalizing p with
  | nil => exact comes_pure hp ⟨nofun, fun _ => rfl⟩
  | cons id ids ih =>
    obtain ⟨hid, hdistinct⟩ := List.nodup_cons.mp hdistinct
    obtain ⟨hown, hrest, hapart⟩ := List.nodup_append.mp hvalues
    have hblock : Comes S A n p (prepareBlock blocks id) fun _ q => Prepared q blocks id ∧
        (∀ b ≠ id, q.scope.labels[b]? = p.scope.labels[b]?) ∧
        (∀ v ∉ phiValues (blocks.getD id default), q.scope.shadows[v]? = p.scope.shadows[v]?) ∧
        ∀ l, q.place? l = p.place? l := by
      refine (comes_makeLabel hp (hlabels id List.mem_cons_self)).bind fun _ p₁ hp₁ _ h => ?_
      obtain ⟨⟨l, hl⟩, -, hsame, -, hplaces⟩ := h
      have hnone (i : Instruction) (hi : i ∈ phisOf (blocks.getD id default)) :
          p₁.scope.shadows[valueOf i]? = none := by
        rw [hsame]
        exact hshadows _ (List.mem_append_left _ (List.mem_map_of_mem hi))
      refine (comes_makeShadows hp₁ hown hnone).mono fun _ q _ _ ⟨hphis, hq⟩ => ?_
      refine ⟨⟨⟨l, ?_⟩, hphis⟩, fun b hb => ?_, fun v hv => ?_, fun l => (hq.places l).trans (hplaces l)⟩
      · rw [hq.labels, hl]
        exact Std.HashMap.getElem?_insert_self
      · rw [hq.labels, hl, Std.HashMap.getElem?_insert, if_neg (by simpa using fun heq => hb heq.symm)]
      · rw [hq.others v hv, hsame]
    refine hblock.bind fun _ p₁ hp₁ _ ⟨hprepared, hlabels₁, hshadows₁, hplaces₁⟩ => ?_
    have hlabels' (b : BlockId) (hb : b ∈ ids) : p₁.scope.labels[b]? = none := by
      rw [hlabels₁ b fun heq => hid (heq ▸ hb)]
      exact hlabels b (List.mem_cons_of_mem id hb)
    have hshadows' (v : ValueId) (hv : v ∈ ids.flatMap fun id => phiValues (blocks.getD id default)) :
        p₁.scope.shadows[v]? = none := by
      rw [hshadows₁ v fun hmem => hapart v hmem v hv rfl]
      exact hshadows v (List.mem_append_right _ hv)
    refine (ih hp₁ hdistinct hrest hlabels' hshadows').mono fun _ q _ hpq ⟨hall, hplaces⟩ => ⟨fun b hb => ?_, ?_⟩
    · rcases List.mem_cons.mp hb with rfl | hb
      · exact hprepared.later hpq
      · exact hall b hb
    · exact fun l => (hplaces l).trans (hplaces₁ l)

/-! ## Before the blocks -/

/-- The receiver of a method and its parameters. -/
def formals (s : State) (m : MethodId) : List VarId :=
  (s.builder.header m).receiver.toList ++ (s.builder.header m).params.toList

/-- The method is declared with the parameters of the function, and has no body yet. -/
structure Ready (f : Func) (m : MethodId) (s : State) : Prop where
  draft : ∃ d, s.builder.drafts[m]? = some d ∧ d.code = #[] ∧ d.pending = [] ∧ d.labels = #[]
  length : f.params.length = (formals s m).length
  distinct : (formals s m).Nodup
  declared : ∀ x ∈ formals s m, x < s.builder.vars.size

/-- The point at which the lowering of a function begins. -/
def start (f : Func) (m : MethodId) (s : State) : Point := { scope := { func := f, method := m }, state := s }

theorem Ready.starts {f : Func} {m : MethodId} {s : State} (h : Ready f m s) : Starts (start f m s) :=
  ⟨h.draft, rfl, rfl, rfl⟩

theorem getElem?_foldl_insert {bound : List (ValueId × VarId)} {m : Std.HashMap ValueId VarId}
    (hdistinct : (bound.map (·.1)).Nodup) {v : ValueId} {x : VarId} :
    (bound.foldl (fun vars (b : ValueId × VarId) => vars.insert b.1 b.2) m)[v]? = some x ↔
      (v, x) ∈ bound ∨ (v ∉ bound.map (·.1) ∧ m[v]? = some x) := by
  induction bound generalizing m with
  | nil => simp
  | cons b bound ih =>
    obtain ⟨hb, hdistinct⟩ := List.nodup_cons.mp hdistinct
    rw [List.foldl_cons, ih hdistinct, getElem?_insert_eq_some, List.map_cons, List.mem_cons, List.mem_cons]
    constructor
    · rintro (hmem | ⟨hv, ⟨rfl, rfl⟩ | ⟨hne, hx⟩⟩)
      · exact Or.inl (Or.inr hmem)
      · exact Or.inl (Or.inl rfl)
      · exact Or.inr ⟨fun h => h.elim (fun heq => hne heq.symm) hv, hx⟩
    · rintro ((rfl | hmem) | ⟨hv, hx⟩)
      · exact Or.inr ⟨hb, Or.inl ⟨rfl, rfl⟩⟩
      · exact Or.inl hmem
      · exact Or.inr ⟨fun h => hv (Or.inr h), Or.inr ⟨fun heq => hv (Or.inl heq.symm), hx⟩⟩

/-- The parameters have their variables, and there is nothing else yet. -/
structure Opens (p : Point) : Prop where
  ok : Ok p
  code : p.code = []
  shadows : p.scope.shadows = ∅
  labels : p.scope.labels = ∅
  places : ∀ l, p.place? l = none
  params : ∀ x ∈ formals p.state p.scope.method, ∃ v : ValueId, p.scope.vars[v]? = some x

/-- The parameters of the function are those of the method. -/
theorem Ready.opens {f : Func} {m : MethodId} {s : State} (h : Ready f m s) (hparams : f.params.Nodup) :
    Opens ((start f m s).after S bindParams) := by
  have hstart := h.starts
  have hfst : (f.params.zip (formals s m)).map (·.1) = f.params := List.map_fst_zip (Nat.le_of_eq h.length)
  have hsnd : (f.params.zip (formals s m)).map (·.2) = formals s m := List.map_snd_zip (Nat.le_of_eq h.length.symm)
  have hvars (v : ValueId) (x : VarId) : ((start f m s).after S bindParams).scope.vars[v]? = some x ↔
      (v, x) ∈ f.params.zip (formals s m) := by
    have hnodup : ((f.params.zip (formals s m)).map (·.1)).Nodup := by rwa [hfst]
    refine (getElem?_foldl_insert hnodup).trans (or_iff_left fun hempty => ?_)
    simpa [start] using hempty.2
  have hpair {v : ValueId} {x : VarId} (hx : (v, x) ∈ f.params.zip (formals s m)) : x ∈ formals s m :=
    hsnd ▸ List.mem_map_of_mem hx
  have hcode : ((start f m s).after S bindParams).code = [] := hstart.code_eq
  refine ⟨⟨hstart.ok.draft, hstart.ok.code, ?_, hstart.ok.shadows_lt, ?_, hstart.ok.shadows_inj, ?_,
    hstart.ok.labels_inj⟩, hcode, rfl, rfl, fun l => ?_, fun x hx => ?_⟩
  · exact fun v x hx => h.declared x (hpair ((hvars v x).mp hx))
  · intro v w x hv hw
    have hnodup : ((f.params.zip (formals s m)).map (·.2)).Nodup := by
      rw [hsnd]
      exact h.distinct
    have hinj := List.inj_on_of_nodup_map hnodup
    exact congrArg Prod.fst (hinj ((hvars v x).mp hv) ((hvars w x).mp hw) rfl)
  · intro v w x _ hw
    have hw' : (∅ : Std.HashMap ValueId VarId)[w]? = some x := hw
    simp at hw'
  · obtain ⟨d, hd, -, hpending, hlabels⟩ := h.draft
    have hd' : ((start f m s).after S bindParams).draft? = some d := hd
    simp [Point.place?, hd', Draft.place?, hpending, hlabels]
  · obtain ⟨v, hv⟩ : ∃ v, (v, x) ∈ f.params.zip (formals s m) := by
      have hx' : x ∈ (f.params.zip (formals s m)).map (·.2) := by
        rw [hsnd]
        exact hx
      obtain ⟨⟨v, y⟩, hmem, rfl⟩ := List.mem_map.mp hx'
      exact ⟨v, hmem⟩
    exact ⟨v, (hvars v x).mpr hv⟩

theorem comes_prologue {f : Func} (hp : Opens p) (hfunc : p.scope.func = f)
    (hvalues : ((blockIds f).flatMap fun id => phiValues ((f.blocks.getD #[]).getD id default)).Nodup) :
    Comes S Stmt.Straight p.numVars p prologue fun _ q =>
      (∀ id ∈ blockIds f, Prepared q (f.blocks.getD #[]) id) ∧ ∀ l, q.place? l = none := by
  subst hfunc
  have hpass {α : Type} {q : Point} {x : LowerBody α} (hx : Plain [] x) (hq : Ok q) (hpq : p.numVars ≤ q.numVars) :=
    (hx.passes (S := S) (A := Stmt.Straight) (fun _ h => h) q hq hpq nofun).comes
  refine comes_get ?_
  refine (hpass (.forM (fun v => (plain_varOf v).discard) _) hp.ok (Nat.le_refl _)).bind fun _ p₁ hp₁ h₁ hk₁ => ?_
  refine (hpass (.forM (fun g => (Plain.mention (.method g)).discard) _) hp₁ h₁.numVars).bind
    fun _ p₂ hp₂ h₂ hk₂ => ?_
  have hkept := hk₁.2.trans hk₂.2
  have hlabels (id : BlockId) : p₂.scope.labels[id]? = none := by simp [hkept.labels, hp.labels]
  have hshadows (v : ValueId) : p₂.scope.shadows[v]? = none := by simp [hkept.shadows, hp.shadows]
  refine (comes_prepareBlocks hp₂ (List.nodup_range.filter _) hvalues (fun id _ => hlabels id)
    fun v _ => hshadows v).bind fun _ p₃ hp₃ h₃ ⟨hprepared, hplaces⟩ => ?_
  have hnum := Nat.le_trans h₁.numVars (Nat.le_trans h₂.numVars h₃.numVars)
  refine (hpass ?members hp₃ hnum).mono fun _ q _ hpq ⟨_, hk⟩ =>
    ⟨fun id hid => (hprepared id hid).later hpq, fun l => ?places⟩
  case members =>
    refine .ite (.bind .read fun S' => ?_) (.pure ())
    split
    · exact .forM (fun member : String × Ssa.Member => plain_allocateMember member.2) _
    · exact .pure ()
  case places => rw [hk.places, hplaces, hkept.places, hp.places]

end WholeProgram.Lowering
