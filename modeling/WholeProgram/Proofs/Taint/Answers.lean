import WholeProgram.Proofs.PointsTo.Exact
import WholeProgram.Proofs.Taint.Plugin

/-!
# The rules of taint, and what the plugin answers

Taint is tracked by two rules on top of those of the pointer analysis (`Taints`): a call of a source
makes its result point to the taint of the call, and a call of a method with a transfer makes taint at
one position of the call into taint at another. As for the pointer analysis, nothing is said of the
order of discovery: `Solves` says that a set of facts is closed under all rules.

Positions of a call are variables of the method of the call (`OwnPositions`). Then it makes no
difference to the least solution whether the rules ask for methods to be reachable
(`isLeast_solves_guarded`).

The plugin turns the rules into requests, event by event. Each answer is described by the facts that it
serves:

* `serves_transferTaint` — what a transfer passes on for the objects of a set (`Pending.passes`);
* `registered_addTransfers` — the transfers of a callee are made to wait at their source variables,
  and those that are new pass on what is there already (`Registered`);
* `answer_newCallEdge`, `answer_newPointsTo` — all that is asked for follows by the rules of taint, if
  transfers wait only at the calls that they are for (`Waiting.Justified`).
-/

namespace WholeProgram.Taint

open PointsTo

variable {p : Program} {opts : Options} {rules : Rules} {guarded : Bool} {X Y : Set PointsTo.Fact}
  {f : PointsTo.Fact}

/-- One application of the rules of taint to the facts of `X`. -/
inductive Taints (p : Program) (rules : Rules) (X : Set PointsTo.Fact) : PointsTo.Fact → Prop
  | source {site : CSSite} {m : CSMethod} {s : Source} {x : VarId} :
      .edge site m ∈ X → s ∈ rules.sources → s.method = m.method → p.resultOf? site.site = some x →
      Taints p rules X (.holds (.var site.ctx x) ⟨[], taintObj site.site s.ty⟩)
  | transfer {site : CSSite} {m : CSMethod} {t : Transfer} {v w : VarId} {c : Context} {source : Site}
      {ty : Option Ty} :
      .edge site m ∈ X → t ∈ rules.transfers → t.method = m.method →
      varAt? p site.site t.source = some v → varAt? p site.site t.target = some w →
      .holds (.var site.ctx v) ⟨c, taintObj source ty⟩ ∈ X →
      Taints p rules X (.holds (.var site.ctx w) ⟨[], taintObj source (t.ty <|> ty)⟩)

/-- The rules of the pointer analysis and those of taint lead nowhere outside the set. -/
structure Solves (p : Program) (opts : Options) (rules : Rules) (guarded : Bool)
    (X : Set PointsTo.Fact) : Prop where
  closed : Closed p opts guarded X
  taints : ∀ ⦃f : PointsTo.Fact⦄, Taints p rules X f → f ∈ X

/-- All rules of the one are rules of the other. -/
structure Rules.Le (rules rules' : Rules) : Prop where
  sources : ∀ s ∈ rules.sources, s ∈ rules'.sources
  sinks : ∀ s ∈ rules.sinks, s ∈ rules'.sinks
  transfers : ∀ t ∈ rules.transfers, t ∈ rules'.transfers

theorem Rules.Le.refl (rules : Rules) : rules.Le rules := ⟨fun _ => id, fun _ => id, fun _ => id⟩

/-- More facts and more rules taint more. -/
theorem Taints.mono {rules' : Rules} (hXY : X ⊆ Y) (hle : rules.Le rules') (h : Taints p rules X f) :
    Taints p rules' Y f := by
  cases h with
  | source he hs hm hx => exact .source (hXY he) (hle.sources _ hs) hm hx
  | transfer he ht hm hv hw hh => exact .transfer (hXY he) (hle.transfers _ ht) hm hv hw (hXY hh)

/-- The positions of a call are variables of the method of the call. -/
def OwnPositions (p : Program) : Prop :=
  ∀ ⦃site : Site⦄ ⦃pos : ArgPosition⦄ ⦃v : VarId⦄, varAt? p site pos = some v →
    ownerOf? p v = some site.method

/-- Taint arrives in methods that are reachable. -/
theorem Taints.live (hown : OwnPositions p) (hlive : ∀ g ∈ X, g.Live p Y) (h : Taints p rules X f) :
    f.Live p Y := by
  cases h with
  | source he _ _ hx =>
    exact Pointer.live_var (@hown _ .result _ hx) (hlive _ he)
  | transfer he _ _ _ hw _ => exact Pointer.live_var (hown hw) (hlive _ he)

/-- For methods that use only their own variables the guard changes nothing. -/
theorem isLeast_solves_guarded (hvars : OwnVars p) (hown : OwnPositions p)
    (h : IsLeast {X | Solves p opts rules false X} X) : IsLeast {X | Solves p opts rules true X} X := by
  refine ⟨⟨h.1.closed.guard, h.1.taints⟩, fun Y hY => ?_⟩
  -- the live facts of `Y` solve the plain rules
  have hlive : Solves p opts rules false {f | f ∈ Y ∧ f.Live p Y} := by
    refine ⟨hY.closed.live hvars, fun f hf => ⟨?_, hf.live hown fun g hg => hg.2⟩⟩
    exact hY.taints (hf.mono (fun g hg => hg.1) (.refl rules))
  exact fun f hf => (h.2 hlive hf).1

end WholeProgram.Taint

/-! # The answers of the plugin -/

namespace WholeProgram.Taint

open PointsTo

variable {p : Program} {opts : Options} {rules : Rules} {core : Core} {objs : IdSet} {t : Pending}
  {X : Set PointsTo.Fact}

/-! ## Transfers -/

/-- Of the objects of a run only the taint of a call has a source call. -/
theorem eq_taintObj {o : Obj} {source : Site} (ho : o ∈ objects p rules)
    (hsource : sourceCall? o = some source) : o = taintObj source o.ty := by
  rcases ho with ⟨site, x, ty, _, rfl⟩ | ⟨site, _, ty, _, rfl⟩
  · cases hsource
  · obtain rfl : site = source := Option.some.inj hsource
    rfl

theorem mem_passedOn (hcore : core.Ok (objects p rules)) (hobjs : ∀ i ∈ objs, ∃ o, core.Names i o)
    {t : Transfer} {o : Obj} :
    o ∈ passedOn core t objs ↔ ∃ i ∈ objs, ∃ c source ty,
      core.Names i ⟨c, taintObj source ty⟩ ∧ o = taintObj source (t.ty <|> ty) := by
  constructor
  · intro ho
    obtain ⟨i, hi, ho⟩ := List.mem_filterMap.mp ho
    obtain ⟨source, hsource, rfl⟩ := Option.map_eq_some_iff.mp ho
    have hi := (IdSet.mem_toList _ _).mp hi
    obtain ⟨b, hb⟩ := hobjs i hi
    have hobj : core.objOf i = b.obj := congrArg HeapObj.obj hb.heapObj_eq
    rw [hobj] at hsource ⊢
    have heq := eq_taintObj (hcore.objs _ hb.obj_mem) hsource
    exact ⟨i, hi, b.ctx, source, b.obj.ty, by rw [← heq]; exact hb, rfl⟩
  · rintro ⟨i, hi, c, source, ty, hnames, rfl⟩
    have hobj : core.objOf i = taintObj source ty := congrArg HeapObj.obj hnames.heapObj_eq
    refine List.mem_filterMap.mpr ⟨i, (IdSet.mem_toList _ _).mpr hi, ?_⟩
    rw [hobj]
    rfl

/-- What a transfer that waits passes on for the objects of a set. -/
def Pending.passes (p : Program) (core : Core) (t : Pending) (objs : IdSet) : Set PointsTo.Fact :=
  {f | ∃ i ∈ objs, ∃ c source ty w, core.Names i ⟨c, taintObj source ty⟩ ∧
    varAt? p t.site.site t.transfer.target = some w ∧
    f = .holds (.var t.site.ctx w) ⟨[], taintObj source (t.transfer.ty <|> ty)⟩}

theorem serves_transferTaint (hcore : core.Ok (objects p rules)) (ht : t.transfer ∈ rules.transfers)
    (hobjs : ∀ i ∈ objs, ∃ o, core.Names i o) :
    Serves (objects p rules) (transferTaint p core t objs) (t.passes p core objs) := by
  have hmem := fun o => mem_passedOn (o := o) hcore hobjs (t := t.transfer)
  unfold transferTaint
  split
  · rename_i hnil
    refine serves_nil ?_
    rintro f ⟨i, hi, c, source, ty, w, hnames, _, rfl⟩
    have := (hmem _).mpr ⟨i, hi, c, source, ty, hnames, rfl⟩
    rw [hnil] at this
    cases this
  · rename_i hnone _
    refine serves_nil ?_
    rintro f ⟨i, hi, c, source, ty, w, _, hw, _⟩
    rw [hnone] at hw
    cases hw
  · rename_i w hw _
    have hF : t.passes p core objs =
        {f | ∃ x ∈ (passedOn core t.transfer objs).map fun o => (([] : Context), o),
          f = .holds (.var t.site.ctx w) ⟨x.1, x.2⟩} := by
      ext f
      constructor
      · rintro ⟨i, hi, c, source, ty, w', hnames, hw', rfl⟩
        obtain rfl := Option.some.inj (hw.symm.trans hw')
        refine ⟨_, List.mem_map.mpr ⟨_, (hmem _).mpr ?_, rfl⟩, rfl⟩
        exact ⟨i, hi, c, source, ty, hnames, rfl⟩
      · rintro ⟨x, hx, rfl⟩
        obtain ⟨o, ho, rfl⟩ := List.mem_map.mp hx
        obtain ⟨i, hi, c, source, ty, hnames, rfl⟩ := (hmem o).mp ho
        exact ⟨i, hi, c, source, ty, w, hnames, hw, rfl⟩
    rw [hF]
    refine serves_pointTo_all (genuine_objects p rules) t.site.ctx w fun x hx => ?_
    obtain ⟨o, ho, rfl⟩ := List.mem_map.mp hx
    exact passedOn_mem hcore ht hobjs ho

/-- The taint that a call edge to a source puts in the result of the call. -/
def sourceFacts (p : Program) (rules : Rules) (site : CSSite) (callee : CSMethod) : Set PointsTo.Fact :=
  {f | ∃ s ∈ rules.sourcesOf callee.method, ∃ x, p.resultOf? site.site = some x ∧
    f = .holds (.var site.ctx x) ⟨[], taintObj site.site s.ty⟩}

theorem serves_sourceTaint {e : CSEdge} (hsite : e.site.site ∈ places p) :
    Serves (objects p rules) (sourceTaint p rules e) (sourceFacts p rules e.site e.callee) := by
  unfold sourceTaint
  split
  · rename_i hnone
    refine serves_nil ?_
    rintro f ⟨s, _, x, hx, _⟩
    rw [hnone] at hx
    cases hx
  · rename_i x hx
    have hF : sourceFacts p rules e.site e.callee = {f | ∃ s ∈ rules.sourcesOf e.callee.method,
        f ∈ ({.holds (.var e.site.ctx x) ⟨[], taintObj e.site.site s.ty⟩} : Set PointsTo.Fact)} := by
      ext f
      simp [sourceFacts, hx]
    rw [hF, List.map_eq_flatMap]
    refine Serves.flatMap fun s hs => serves_pointTo (genuine_objects p rules) _ x (o := ⟨_, _⟩) ?_
    exact Or.inr ⟨_, hsite, _, Or.inl ⟨s, (List.mem_filter.mp hs).1, rfl⟩, rfl⟩

/-! ## The transfers of a callee -/

/-- The transfers that wait at a variable in a context. -/
def Waiting.here (waiting : Waiting) (key : Context × VarId) : List Pending := (waiting[key]?).getD []

theorem Waiting.here_insert (waiting : Waiting) (key k : Context × VarId) (ts : List Pending) :
    Waiting.here (waiting.insert key ts) k = if key = k then ts else waiting.here k := by
  unfold Waiting.here
  rw [Std.HashMap.getElem?_insert]
  by_cases h : key = k
  · simp [h]
  · simp [h]

/-- The transfers `ts` of a callee were made to wait at the call, from `waiting` to `waiting'`, and the
requests `rs` for it serve `F`. -/
structure Registered (p : Program) (rules : Rules) (core : Core) (site : CSSite) (ts : List Transfer)
    (waiting waiting' : Waiting) (rs : List Request) (F : Set PointsTo.Fact) : Prop where
  serves : Serves (objects p rules) rs F
  kept : ∀ key, ∀ t ∈ waiting.here key, t ∈ waiting'.here key
  all : ∀ t ∈ ts, ∀ v w, varAt? p site.site t.source = some v →
    varAt? p site.site t.target = some w → ⟨site, t⟩ ∈ waiting'.here (site.ctx, v)
  new : ∀ key, ∀ t ∈ waiting'.here key, t ∈ waiting.here key ∨
    t.site = site ∧ t.transfer ∈ ts ∧
      (∃ v, varAt? p site.site t.transfer.source = some v ∧ key = (site.ctx, v)) ∧
      t.passes p core (core.pointsTo (.var key.1 key.2)) ⊆ F
  asked : ∀ f ∈ F, ∃ t ∈ ts, ∃ v, varAt? p site.site t.source = some v ∧
    f ∈ (⟨site, t⟩ : Pending).passes p core (core.pointsTo (.var site.ctx v))

theorem registered_addTransfer (hcore : core.Ok (objects p rules)) (site : CSSite)
    (waiting : Waiting) {t : Transfer} (ht : t ∈ rules.transfers) :
    ∃ F, Registered p rules core site [t] waiting (addTransfer p core site waiting t).1
      (addTransfer p core site waiting t).2 F := by
  unfold addTransfer
  split
  · rename_i v w hv hw
    have hv_eq : ∀ {v'}, varAt? p site.site t.source = some v' → v' = v := fun h =>
      Option.some.inj (h.symm.trans hv)
    dsimp only
    split
    · rename_i hhere
      -- the transfer waits already
      refine ⟨∅, serves_touch _ _, fun _ _ => id, fun t' ht' v' w' hv' _ => ?_, fun _ _ => Or.inl,
        by simp⟩
      obtain rfl := List.mem_singleton.mp ht'
      obtain rfl := hv_eq hv'
      simpa [Waiting.here] using hhere
    · have hhere : ∀ key, Waiting.here (waiting.insert (site.ctx, v)
          ((waiting[(site.ctx, v)]?).getD [] ++ [⟨site, t⟩])) key =
            if (site.ctx, v) = key then waiting.here (site.ctx, v) ++ [⟨site, t⟩]
            else waiting.here key :=
        fun key => waiting.here_insert _ key _
      refine ⟨_, (serves_touch site.ctx v).append (serves_transferTaint (t := ⟨site, t⟩) hcore ht
        fun i hi => hcore.held hi), ?_, ?_, ?_, ?_⟩
      · intro key t' ht'
        rw [hhere]
        split
        · rename_i heq
          subst heq
          exact List.mem_append_left _ ht'
        · exact ht'
      · intro t' ht' v' w' hv' _
        obtain rfl := List.mem_singleton.mp ht'
        obtain rfl := hv_eq hv'
        rw [hhere, if_pos rfl]
        exact List.mem_append_right _ (List.mem_singleton.mpr rfl)
      · intro key t' ht'
        rw [hhere] at ht'
        split at ht'
        · rename_i heq
          subst heq
          refine (List.mem_append.mp ht').imp_right fun ht' => ?_
          obtain rfl := List.mem_singleton.mp ht'
          exact ⟨rfl, List.mem_singleton.mpr rfl, ⟨v, hv, rfl⟩, Set.subset_union_right⟩
        · exact Or.inl ht'
      · rintro f (hf | hf)
        · exact absurd hf (Set.notMem_empty f)
        · exact ⟨t, List.mem_singleton.mpr rfl, v, hv, hf⟩
  · rename_i hno
    refine ⟨∅, serves_nil Set.notMem_empty, fun _ _ => id, fun t' ht' v' w' hv' hw' => ?_,
      fun _ _ => Or.inl, by simp⟩
    obtain rfl := List.mem_singleton.mp ht'
    exact (hno _ _ hv' hw').elim

theorem Registered.append {site : CSSite} {ts ts' : List Transfer} {w w' w'' : Waiting}
    {rs rs' : List Request} {F F' : Set PointsTo.Fact} (h : Registered p rules core site ts w w' rs F)
    (h' : Registered p rules core site ts' w' w'' rs' F') :
    Registered p rules core site (ts ++ ts') w w'' (rs ++ rs') (F ∪ F') where
  serves := h.serves.append h'.serves
  kept := fun key t ht => h'.kept key t (h.kept key t ht)
  all := by
    intro t ht v x hv hx
    rcases List.mem_append.mp ht with ht | ht
    · exact h'.kept _ _ (h.all t ht v x hv hx)
    · exact h'.all t ht v x hv hx
  new := by
    intro key t ht
    rcases h'.new key t ht with ht | ⟨hsite, ht, hkey, hF⟩
    · refine (h.new key t ht).imp_right fun ⟨hsite, ht, hkey, hF⟩ => ?_
      exact ⟨hsite, List.mem_append_left _ ht, hkey, hF.trans Set.subset_union_left⟩
    · exact Or.inr ⟨hsite, List.mem_append_right _ ht, hkey, hF.trans Set.subset_union_right⟩
  asked := by
    rintro f (hf | hf)
    · obtain ⟨t, ht, h⟩ := h.asked f hf
      exact ⟨t, List.mem_append_left _ ht, h⟩
    · obtain ⟨t, ht, h⟩ := h'.asked f hf
      exact ⟨t, List.mem_append_right _ ht, h⟩

/-- Makes the transfers of a callee wait, one after the other. -/
def addTransfers (p : Program) (core : Core) (site : CSSite) (ts : List Transfer)
    (start : Waiting × List Request) : Waiting × List Request :=
  ts.foldl (fun (waiting, requests) t =>
    let (waiting, more) := addTransfer p core site waiting t
    (waiting, requests ++ more)) start

theorem registered_addTransfers (hcore : core.Ok (objects p rules)) (site : CSSite)
    (waiting : Waiting) (rs₀ : List Request) {ts : List Transfer}
    (hts : ∀ t ∈ ts, t ∈ rules.transfers) :
    ∃ rs F, (addTransfers p core site ts (waiting, rs₀)).2 = rs₀ ++ rs ∧
      Registered p rules core site ts waiting (addTransfers p core site ts (waiting, rs₀)).1 rs F := by
  induction ts using List.reverseRecOn with
  | nil =>
    exact ⟨[], ∅, (List.append_nil _).symm, serves_nil Set.notMem_empty, fun _ _ => id, by simp,
      fun _ _ => Or.inl, by simp⟩
  | append_singleton ts t ih =>
    obtain ⟨rs, F, hrs, hreg⟩ := ih fun t' ht' => hts t' (List.mem_append_left _ ht')
    obtain ⟨F', hreg'⟩ := registered_addTransfer hcore site
      (addTransfers p core site ts (waiting, rs₀)).1
      (hts t (List.mem_append_right _ (List.mem_singleton.mpr rfl)))
    have hstep : addTransfers p core site (ts ++ [t]) (waiting, rs₀) =
        ((addTransfer p core site (addTransfers p core site ts (waiting, rs₀)).1 t).1,
          (addTransfers p core site ts (waiting, rs₀)).2 ++
            (addTransfer p core site (addTransfers p core site ts (waiting, rs₀)).1 t).2) := by
      unfold addTransfers
      rw [List.foldl_append]
      rfl
    rw [hstep]
    exact ⟨_, _, by rw [hrs, List.append_assoc], hreg.append hreg'⟩

/-! ## The answers -/

/-- Transfers wait only at the calls that they are for. -/
def Waiting.Justified (p : Program) (rules : Rules) (X : Set PointsTo.Fact) (waiting : Waiting) : Prop :=
  ∀ key, ∀ t ∈ waiting.here key, t.transfer ∈ rules.transfers ∧
    (∃ m : CSMethod, .edge t.site m ∈ X ∧ t.transfer.method = m.method) ∧
    ∃ v, varAt? p t.site.site t.transfer.source = some v ∧ key = (t.site.ctx, v)

/-- What a transfer passes on for objects of its source variable follows by the rules of taint. -/
theorem taints_of_passes {m : CSMethod} {v : VarId} (hfacts : core.facts ⊆ X)
    (ht : t.transfer ∈ rules.transfers) (he : .edge t.site m ∈ X) (hm : t.transfer.method = m.method)
    (hv : varAt? p t.site.site t.transfer.source = some v)
    (hobjs : ∀ i ∈ objs, i ∈ core.pointsTo (.var t.site.ctx v)) {f : PointsTo.Fact}
    (hf : f ∈ t.passes p core objs) : Taints p rules X f := by
  obtain ⟨i, hi, c, source, ty, w, hnames, hw, rfl⟩ := hf
  exact .transfer he ht hm hv hw (hfacts ⟨i, hobjs i hi, hnames⟩)

/-- When objects are new to a variable, the transfers that wait there pass on their taint. -/
theorem answer_newPointsTo (hcore : core.Ok (objects p rules)) (hfacts : core.facts ⊆ X)
    {ctx : Context} {v : VarId} {delta : IdSet}
    (hdelta : ∀ i ∈ delta, i ∈ core.pointsTo (.var ctx v)) {waiting : Waiting}
    (hw : waiting.Justified p rules X) :
    ∃ F, Serves (objects p rules)
        ((plugin p rules).handle (.newPointsTo ctx v delta) core waiting).2 F ∧
      (∀ f ∈ F, Taints p rules X f) ∧
      ∀ t ∈ waiting.here (ctx, v), t.passes p core delta ⊆ F := by
  refine ⟨{f | ∃ t ∈ waiting.here (ctx, v), f ∈ t.passes p core delta}, ?_, ?_, ?_⟩
  · refine Serves.flatMap fun t ht => serves_transferTaint hcore (hw _ t ht).1 fun i hi => ?_
    exact hcore.held (hdelta i hi)
  · rintro f ⟨t, ht, hf⟩
    obtain ⟨hrule, ⟨m, he, hm⟩, v', hv, heq⟩ := hw _ t ht
    obtain ⟨rfl, rfl⟩ := Prod.mk.inj heq
    exact taints_of_passes hfacts hrule he hm hv hdelta hf
  · exact fun t ht f hf => ⟨t, ht, hf⟩

/-- When there is a new call edge, a source taints the result, and transfers wait at their source
variables and pass on what is there already. -/
theorem answer_newCallEdge (hcore : core.Ok (objects p rules)) (hfacts : core.facts ⊆ X) {e : CSEdge}
    (he : .edge e.site e.callee ∈ X) (hsite : e.site.site ∈ places p) (waiting : Waiting) :
    ∃ rs F, Registered p rules core e.site (rules.transfersOf e.callee.method) waiting
        ((plugin p rules).handle (.newCallEdge e) core waiting).1 rs F ∧
      Serves (objects p rules) ((plugin p rules).handle (.newCallEdge e) core waiting).2
        (sourceFacts p rules e.site e.callee ∪ F) ∧
      ∀ f ∈ sourceFacts p rules e.site e.callee ∪ F, Taints p rules X f := by
  have hof : ∀ t ∈ rules.transfersOf e.callee.method,
      t ∈ rules.transfers ∧ t.method = e.callee.method := by
    intro t ht
    simpa using List.mem_filter.mp ht
  obtain ⟨rs, F, hrs, hreg⟩ := registered_addTransfers hcore e.site waiting (sourceTaint p rules e)
    fun t ht => (hof t ht).1
  have hanswer : (plugin p rules).handle (.newCallEdge e) core waiting =
      addTransfers p core e.site (rules.transfersOf e.callee.method)
        (waiting, sourceTaint p rules e) := rfl
  rw [hanswer, hrs]
  refine ⟨rs, F, hreg, (serves_sourceTaint hsite).append hreg.serves, ?_⟩
  rintro f (⟨s, hs, x, hx, rfl⟩ | hf)
  · have hs : s ∈ rules.sources ∧ s.method = e.callee.method := by simpa using List.mem_filter.mp hs
    exact .source he hs.1 hs.2 hx
  · obtain ⟨t, ht, v, hv, hf⟩ := hreg.asked f hf
    exact taints_of_passes (t := ⟨e.site, t⟩) hfacts (hof t ht).1 he (hof t ht).2 hv (fun _ => id) hf

end WholeProgram.Taint
