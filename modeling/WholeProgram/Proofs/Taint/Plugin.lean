import WholeProgram.Proofs.PointsTo.FactSpace

/-!
# The taint plugin stays within the facts of a program

Taint objects are made for calls of the program, with types that the rules give, and flow into
variables of calls. `respects_factSpace`: whatever the plugin is told, its requests stay within the
space of facts.
-/

namespace WholeProgram.Taint

open PointsTo

variable {p : Program} {opts : Options} {rules : Rules} {core : Core} {objs : IdSet} {t : Pending}
  {v : VarId}

/-- The transfers that wait are transfers of the rules at calls in contexts of the run. -/
def Waiting.Known (p : Program) (opts : Options) (rules : Rules) (waiting : Waiting) : Prop :=
  ∀ (key : Context × VarId) (ts : List Pending), waiting[key]? = some ts → ∀ t ∈ ts,
    t.site.ctx ∈ contexts p rules opts.selector.k.toNat ∧ t.transfer ∈ rules.transfers

/-- The variable at a position of a call is one of the program. -/
theorem varAt?_used {site : Site} {pos : ArgPosition} (h : varAt? p site pos = some v) :
    v ∈ usedVars p := by
  have hcall : ∀ {call : Call}, p.callAt? site = some call → v ∈ call.base.toList ++ call.args →
    v ∈ usedVars p := by
    intro call hc hv
    obtain ⟨stmt, hs, hstmt⟩ := Option.bind_eq_some_iff.mp hc
    obtain ⟨x, rfl⟩ := Stmt.eq_invoke_of_call? hstmt
    exact uses_used hs hv
  cases pos with
  | base =>
    obtain ⟨call, hc, hv⟩ := Option.bind_eq_some_iff.mp h
    exact hcall hc (List.mem_append_left _ (Option.mem_toList.mpr hv))
  | result =>
    obtain ⟨stmt, hs, hv⟩ := Option.bind_eq_some_iff.mp h
    exact defined_used hs hv
  | arg i =>
    obtain ⟨call, hc, hv⟩ := Option.bind_eq_some_iff.mp h
    exact hcall hc (List.mem_append_right _ (List.mem_of_getElem? hv))

/-- The taint that a transfer passes on is taint of the program. -/
theorem passedOn_mem (hcore : core.Ok (objects p rules)) {r : Transfer} (hr : r ∈ rules.transfers)
    (hobjs : ∀ i ∈ objs, ∃ o, core.Names i o) {o : Obj} (ho : o ∈ passedOn core r objs) :
    o ∈ objects p rules := by
  obtain ⟨i, hi, ho⟩ := List.mem_filterMap.mp ho
  obtain ⟨site, hsite, rfl⟩ := Option.map_eq_some_iff.mp ho
  obtain ⟨o', ho'⟩ := hobjs i ((IdSet.mem_toList _ _).mp hi)
  have hobj : core.objOf i = o'.obj := congrArg HeapObj.obj ho'.heapObj_eq
  rw [hobj] at hsite ⊢
  -- only taint has a source call, and its type is one of the rules
  rcases hcore.objs _ ho'.obj_mem with ⟨site', x, ty, _, heq⟩ | ⟨site', hplace, ty, hty, heq⟩
  · rw [heq] at hsite
    cases hsite
  · rw [heq] at hsite ⊢
    obtain rfl : site' = site := Option.some.inj hsite
    refine Or.inr ⟨site', hplace, _, ?_, rfl⟩
    cases hrt : r.ty with
    | none => exact hty
    | some ty' => exact Or.inr ⟨r, hr, hrt⟩

/-- A request for taint in a variable stays within the space of facts. -/
theorem within_pointTo {ctx : Context} (hctx : ctx ∈ contexts p rules opts.selector.k.toNat)
    (hv : v ∈ usedVars p) {os : List Obj} (hos : ∀ o ∈ os, o ∈ objects p rules) :
    (Request.pointTo ctx v (os.map fun o => ([], o))).Within (objects p rules)
      (factSpace p opts rules) := by
  constructor
  · intro x hx
    obtain ⟨o, ho, rfl⟩ := List.mem_map.mp hx
    exact hos o ho
  · rintro f ⟨x, hx, b, hb, _, rfl⟩
    obtain ⟨o, _, rfl⟩ := List.mem_map.mp hx
    exact ⟨⟨hctx, hv⟩, nil_mem_contexts _, hb⟩

theorem within_touch (ctx : Context) (v : VarId) :
    (Request.touch ctx v).Within (objects p rules) (factSpace p opts rules) := by
  constructor
  · intro x hx
    cases hx
  · intro f hf
    cases hf

theorem within_transferTaint (hcore : core.Ok (objects p rules))
    (hctx : t.site.ctx ∈ contexts p rules opts.selector.k.toNat) (ht : t.transfer ∈ rules.transfers)
    (hobjs : ∀ i ∈ objs, ∃ o, core.Names i o) :
    ∀ r ∈ transferTaint p core t objs, r.Within (objects p rules) (factSpace p opts rules) := by
  intro r hr
  unfold transferTaint at hr
  split at hr
  · cases hr
  · cases hr
  · rename_i v hv _
    rw [List.mem_singleton.mp hr]
    exact within_pointTo hctx (varAt?_used hv) fun o ho => passedOn_mem hcore ht hobjs ho

theorem within_sourceTaint {e : CSEdge} (hctx : e.site.ctx ∈ contexts p rules opts.selector.k.toNat)
    (hsite : e.site.site ∈ places p) :
    ∀ r ∈ sourceTaint p rules e, r.Within (objects p rules) (factSpace p opts rules) := by
  intro r hr
  unfold sourceTaint at hr
  split at hr
  · cases hr
  · rename_i v hv
    obtain ⟨s, hs, rfl⟩ := List.mem_map.mp hr
    have htaint : ∀ o ∈ [taintObj e.site.site s.ty], o ∈ objects p rules := by
      intro o ho
      rw [List.mem_singleton.mp ho]
      exact Or.inr ⟨_, hsite, _, Or.inl ⟨s, (List.mem_filter.mp hs).1, rfl⟩, rfl⟩
    exact within_pointTo hctx (varAt?_used (show varAt? p e.site.site .result = some v from hv))
      htaint

/-- A transfer that is made to wait stays within the space of facts. -/
theorem addTransfer_known (hcore : core.Ok (objects p rules)) {site : CSSite} {waiting : Waiting}
    {r : Transfer} (hctx : site.ctx ∈ contexts p rules opts.selector.k.toNat)
    (hw : waiting.Known p opts rules) (hr : r ∈ rules.transfers) :
    Waiting.Known p opts rules (addTransfer p core site waiting r).1 ∧
    ∀ q ∈ (addTransfer p core site waiting r).2,
      q.Within (objects p rules) (factSpace p opts rules) := by
  unfold addTransfer
  split
  · rename_i v _ hv _
    dsimp only
    split
    · exact ⟨hw, fun q hq => by rw [List.mem_singleton.mp hq]; exact within_touch _ _⟩
    · constructor
      · intro key ts hts t' ht'
        rw [Std.HashMap.getElem?_insert] at hts
        split at hts
        · obtain rfl := Option.some.inj hts
          rcases List.mem_append.mp ht' with ht' | ht'
          · cases hhere : waiting[(site.ctx, v)]? with
            | none =>
              rw [hhere] at ht'
              cases ht'
            | some here =>
              rw [hhere] at ht'
              exact hw _ here hhere t' ht'
          · rw [List.mem_singleton.mp ht']
            exact ⟨hctx, hr⟩
        · exact hw key ts hts t' ht'
      · intro q hq
        rcases List.mem_cons.mp hq with rfl | hq
        · exact within_touch _ _
        · exact within_transferTaint hcore hctx hr (fun i hi => hcore.held hi) q hq
  · exact ⟨hw, fun q hq => by cases hq⟩

/-- So do all transfers of a callee, one after the other. -/
theorem addTransfers_known (hcore : core.Ok (objects p rules)) {site : CSSite}
    (hctx : site.ctx ∈ contexts p rules opts.selector.k.toNat) (rs : List Transfer)
    (hrs : ∀ r ∈ rs, r ∈ rules.transfers) (acc : Waiting × List Request)
    (hw : acc.1.Known p opts rules)
    (hq : ∀ q ∈ acc.2, q.Within (objects p rules) (factSpace p opts rules)) :
    Waiting.Known p opts rules (rs.foldl (fun (waiting, requests) t =>
      let (waiting, more) := addTransfer p core site waiting t
      (waiting, requests ++ more)) acc).1 ∧
    ∀ q ∈ (rs.foldl (fun (waiting, requests) t =>
      let (waiting, more) := addTransfer p core site waiting t
      (waiting, requests ++ more)) acc).2, q.Within (objects p rules) (factSpace p opts rules) := by
  induction rs generalizing acc with
  | nil => exact ⟨hw, hq⟩
  | cons r rs ih =>
    obtain ⟨hw', hq'⟩ := addTransfer_known hcore hctx hw (hrs r List.mem_cons_self)
    refine ih (fun r' hr' => hrs r' (List.mem_cons_of_mem _ hr')) _ hw' ?_
    intro q hmem
    rcases List.mem_append.mp hmem with hmem | hmem
    · exact hq q hmem
    · exact hq' q hmem

/-- The taint plugin stays within the space of facts. -/
theorem respects_factSpace (p : Program) (opts : Options) (rules : Rules) :
    (plugin p rules).Respects (objects p rules) (factSpace p opts rules)
      (Waiting.Known p opts rules) where
  initial := by
    intro key ts hts
    simp [plugin] at hts
  handle := by
    intro e core waiting hcore hfacts he hw
    cases e with
    | start | finish | newMethod | newCSMethod => exact ⟨hw, fun r hr => by cases hr⟩
    | newPointsTo ctx v delta =>
      refine ⟨hw, fun r hr => ?_⟩
      obtain ⟨t, ht, hr⟩ := List.mem_flatMap.mp hr
      cases hhere : waiting[(ctx, v)]? with
      | none =>
        rw [hhere] at ht
        cases ht
      | some ts =>
        rw [hhere] at ht
        obtain ⟨hctx, htransfer⟩ := hw _ ts hhere t ht
        exact within_transferTaint hcore hctx htransfer (fun i hi => hcore.held (he i hi)) r hr
    | newCallEdge e =>
      obtain ⟨⟨hctx, hsite⟩, _⟩ := hfacts he
      exact addTransfers_known hcore hctx _ (fun r hr => (List.mem_filter.mp hr).1) (waiting, _) hw
        (within_sourceTaint hctx hsite)

end WholeProgram.Taint
