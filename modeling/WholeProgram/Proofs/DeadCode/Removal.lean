import WholeProgram.Proofs.DeadCode.Reachable

/-!
# Removing dead assignments

Where a method copies and computes integers from integers only, the assignments that are reported as
dead, without those that may have an effect, can all be replaced by `nop` at once. Every run of the
method is then matched by a run of the new one, step for step and with the same events
(`analyze_removable`).

The two runs hold the same in the variables that are live (`Related`); in the others they may differ for
as long as nobody reads them. A removed assignment does not stop a run: if it divides, then by a
constant that is not zero, and what is known of a constant holds in the run.
-/

namespace WholeProgram

/-! ## Replacing statements -/

namespace Method

/-- The method with the statements at these positions replaced by `nop`. -/
def blank (m : Method) (is : List Nat) : Method :=
  { m with body := m.body.mapIdx fun i instr => if i ∈ is then { instr with stmt := .nop } else instr }

variable {m : Method} {is : List Nat} {i n : Nat}

theorem stmt?_blank (m : Method) (is : List Nat) (i : Nat) :
    (m.blank is).stmt? i = (m.stmt? i).map fun s => if i ∈ is then .nop else s := by
  simp only [stmt?, blank, Array.getElem?_mapIdx, Option.map_map]
  congr 1
  funext instr
  simp only [Function.comp]
  split <;> rfl

theorem stmtAt_blank_of_mem (h : i ∈ is) : (m.blank is).stmtAt (i + 1) = .nop := by
  simp only [stmtAt, stmt?_blank, if_pos h]
  cases m.stmt? i <;> rfl

theorem stmtAt_blank_of_not_mem (h : ∀ i ∈ is, n ≠ i + 1) : (m.blank is).stmtAt n = m.stmtAt n := by
  cases n with
  | zero => rfl
  | succ i =>
    have hnot : i ∉ is := fun hi => h i hi rfl
    simp only [stmtAt, stmt?_blank, if_neg hnot, Option.map_id']

/-- Control flows the same if only statements that define variables are replaced. -/
theorem outEdges_blank (h : ∀ i ∈ is, (m.stmtAt (i + 1)).defined? ≠ none) (n : Nat) :
    (m.blank is).outEdges n = m.outEdges n := by
  have hexit : (m.blank is).exit = m.exit := by simp [exit, blank]
  cases n with
  | zero => rfl
  | succ i =>
    simp only [outEdges, stmt?_blank, hexit]
    cases hs : m.stmt? i with
    | none => rfl
    | some s =>
      by_cases hi : i ∈ is
      · have hdef := h i hi
        simp only [stmtAt, hs, Option.getD_some] at hdef
        simp only [Option.map_some, if_pos hi]
        cases s <;> first | rfl | exact absurd rfl hdef
      · simp only [Option.map_some, if_neg hi]

end Method

namespace DeadCode

open Body Constants

variable {p : Program} {m : Method} {k : MethodId} {c : Solution Fact} {live : Solution IdSet}
  {vars vars' : Vars} {n : Nat} {e : Edge}

/-! ## Live variables -/

/-- The variables of two runs agree where they are live. -/
def Agree (l : IdSet) (vars vars' : Vars) : Prop := ∀ v ∈ l, vars v = vars' v

theorem Agree.reads {s : Stmt Nat} {ds : List Datum} {l : IdSet}
    (h : Agree (Liveness.transfer s l) vars vars') (hreads : vars.Reads s.uses ds) :
    vars'.Reads s.uses ds :=
  hreads.congr fun v hv => h v (Liveness.mem_transfer.mpr (Or.inl hv))

/-- Runs that agree before a statement agree after it, if it defines the same. -/
theorem Agree.put {s : Stmt Nat} {ds : List Datum} {l : IdSet} {kind : EdgeKind} {d : Option Datum}
    (h : Agree (Liveness.transfer s l) vars vars') (hacts : Acts s ds kind d) :
    Agree l (vars.put s.defined? d) (vars'.put s.defined? d) := by
  intro v hv
  by_cases hdef : s.defined? = some v
  · cases d with
    | none =>
      rw [hacts.defined?_eq_none] at hdef
      cases hdef
    | some r => rw [hdef, Vars.put_self, Vars.put_self]
  · rw [Vars.put_of_ne hdef, Vars.put_of_ne hdef]
    exact h v (Liveness.mem_transfer.mpr (Or.inr ⟨hv, hdef⟩))

/-- They also do if a definition that is dead is left out. -/
theorem Agree.leave_out {s : Stmt Nat} {l : IdSet} {d : Option Datum}
    (h : Agree (Liveness.transfer s l) vars vars') (hdead : isDeadAssignment s l = true) :
    Agree l (vars.put s.defined? d) vars' := by
  intro v hv
  have hdef : s.defined? ≠ some v := by
    intro hdef
    simp only [isDeadAssignment, hdef, Bool.not_eq_true'] at hdead
    exact Bool.eq_false_iff.mp hdead hv
  rw [Vars.put_of_ne hdef]
  exact h v (Liveness.mem_transfer.mpr (Or.inr ⟨hv, hdef⟩))

/-- What is live before the target of an edge is live after its source. -/
theorem Agree.target (hlive : Liveness.Equations m live.assignment)
    (h : Agree (live.outFact n) vars vars') (he : e ∈ m.outEdges n) :
    Agree (live.inFact e.target) vars vars' := by
  have hsource := Method.source_of_mem_outEdges he
  have hle : live.inFact e.target ≤ live.outFact n :=
    (hlive.after n (Method.lt_exit_of_mem_outEdges he)).1
      ⟨e, Method.mem_edges.mpr (hsource ▸ he), hsource, rfl⟩
  exact fun v hv => h v (hle v hv)

/-! ## Removable statements -/

/-- The statement is a dead assignment without effect. -/
structure Removable (f : Fact) (l : IdSet) (s : Stmt Nat) : Prop where
  dead : isDeadAssignment s l = true
  harmless : hasNoSideEffect s f = true

namespace Removable

variable {f : Fact} {l : IdSet} {s : Stmt Nat} {ds : List Datum} {kind : EdgeKind} {d : Option Datum}

theorem defined?_ne_none (h : Removable f l s) : s.defined? ≠ none := by
  intro hnone
  have hdead := h.dead
  simp [isDeadAssignment, hnone] at hdead

theorem unseen (h : Removable f l s) : s.produces = false ∧ s.stores = false := by
  have hharmless := h.harmless
  cases s <;> first | exact ⟨rfl, rfl⟩ | cases hharmless

/-- It falls through, and nothing of it can be seen. -/
theorem falls_through (h : Removable f l s) (hacts : Acts s ds kind d) :
    kind = .fallThrough ∧ effect s ds d = none := by
  obtain ⟨hproduces, hstores⟩ := h.unseen
  refine ⟨?_, by simp [effect, hproduces, hstores]⟩
  have hharmless := h.harmless
  cases hacts with
  | literal | copy | binary | nop | produce | store => rfl
  | branch | jump | switch => cases hharmless

/-- It does not divide by zero. -/
theorem not_stops (h : Removable f l s) (hf : Plausible p m f) (hcov : Covers p f vars)
    (hreads : vars.Reads s.uses ds) : ¬ Stops s ds := by
  intro hstops
  have hharmless := h.harmless
  cases hstops with
  | branch => cases hharmless
  | @binary x y z op a b hcomp =>
    cases hcomp with
    | zero hdiv =>
      have hop : op = .div ∨ op = .rem := by
        cases op <;> simp [BinaryOp.divides] at hdiv ⊢
      simp only [hasNoSideEffect, if_pos hop] at hharmless
      cases hz : f.get z with
      | const i =>
        rw [hz] at hharmless
        have hzero := eq_int_of_get hf hcov (Vars.reads_two.mp hreads).2 hz
        cases hzero
        cases hharmless
      | undefined | nac =>
        rw [hz] at hharmless
        cases hharmless

end Removable

/-! ## Two runs -/

/-- States that look the same from outside the variables. -/
inductive SameState : State → State → Prop
  | running (n : Nat) (vars vars' : Vars) : SameState (.running n vars) (.running n vars')
  | returned (v : Option Datum) : SameState (.returned v) (.returned v)
  | stopped (n : Nat) : SameState (.stopped n) (.stopped n)

/-- The states of the two runs: running ones agree in what is live. -/
inductive Related (live : Solution IdSet) : State → State → Prop
  | running {n : Nat} {vars vars' : Vars} : Agree (live.inFact n) vars vars' →
      Related live (.running n vars) (.running n vars')
  | returned (v : Option Datum) : Related live (.returned v) (.returned v)
  | stopped (n : Nat) : Related live (.stopped n) (.stopped n)

theorem Related.sameState {s t : State} (h : Related live s t) : SameState s t := by
  cases h with
  | running => exact .running _ _ _
  | returned v => exact .returned v
  | stopped n => exact .stopped n

/-- The statements at the positions `is` are removable, by facts that are right about the method. -/
structure Removes (p : Program) (m : Method) (c : Solution Fact) (live : Solution IdSet)
    (is : List Nat) : Prop where
  constants : Constants.Equations p m c.assignment
  known : ∀ n, Plausible p m (c.inFact n)
  liveness : Liveness.Equations m live.assignment
  removable : ∀ i ∈ is,
    Removable (c.inFact (i + 1)) (live.outFact (i + 1)) (m.stmtAt (i + 1))

namespace Removes

variable {is : List Nat} {s t : State} {ev : Event} {i : Nat}

theorem outEdges (h : Removes p m c live is) (n : Nat) : (m.blank is).outEdges n = m.outEdges n :=
  Method.outEdges_blank (fun i hi => (h.removable i hi).defined?_ne_none) n

/-- Runs that agree in what is live before a statement agree in what the statement makes of what is
live after it. -/
theorem agree_transfer (h : Removes p m c live is) (hn : n < m.exit)
    (hagree : Agree (live.inFact n) vars vars') :
    Agree (Liveness.transfer (m.stmtAt n) (live.outFact n)) vars vars' := by
  have hin : live.inFact n = Liveness.transfer (m.stmtAt n) (live.outFact n) := h.liveness.before n hn
  rw [← hin]
  exact hagree

/-- In place of a removed statement, the other run does nothing. -/
theorem step_removed (h : Removes p m c live is) (hi : i ∈ is)
    (hcov : Covers p (c.inFact (i + 1)) vars) (hagree : Agree (live.inFact (i + 1)) vars vars')
    (hstep : Step m (.running (i + 1) vars) ev t) :
    ∃ t', Step (m.blank is) (.running (i + 1) vars') ev t' ∧ Related live t t' := by
  have hrem := h.removable i hi
  have hnop : (m.blank is).stmtAt (i + 1) = .nop := Method.stmtAt_blank_of_mem hi
  cases hstep with
  | go hreads hacts hfind =>
    obtain ⟨rfl, heffect⟩ := hrem.falls_through hacts
    have he := List.mem_of_find?_eq_some hfind
    have hagree' := h.agree_transfer (Method.lt_exit_of_mem_outEdges he) hagree
    have hread : vars'.Reads ((m.blank is).stmtAt (i + 1)).uses [] := by
      rw [hnop]
      rfl
    have hskip : Acts ((m.blank is).stmtAt (i + 1)) [] .fallThrough none := by
      rw [hnop]
      exact .nop
    have hgo := Step.go hread hskip ((h.outEdges (i + 1)).symm ▸ hfind)
    rw [hnop] at hgo
    rw [heffect]
    exact ⟨_, hgo, .running (Agree.target h.liveness (hagree'.leave_out hrem.dead) he)⟩
  | ret hs =>
    refine absurd ?_ hrem.defined?_ne_none
    rw [hs]
    rfl
  | stop hreads hstops =>
    exact absurd hstops (hrem.not_stops (h.known _) hcov hreads)

/-- A statement that is kept does the same in both runs. -/
theorem step_kept (h : Removes p m c live is) (hkept : ∀ i ∈ is, n ≠ i + 1)
    (hagree : Agree (live.inFact n) vars vars') (hstep : Step m (.running n vars) ev t) :
    ∃ t', Step (m.blank is) (.running n vars') ev t' ∧ Related live t t' := by
  have hsame : (m.blank is).stmtAt n = m.stmtAt n := Method.stmtAt_blank_of_not_mem hkept
  cases hstep with
  | go hreads hacts hfind =>
    have he := List.mem_of_find?_eq_some hfind
    have hagree' := h.agree_transfer (Method.lt_exit_of_mem_outEdges he) hagree
    refine ⟨_, ?_, .running (Agree.target h.liveness (hagree'.put hacts) he)⟩
    rw [← hsame] at hacts ⊢
    exact .go (hsame ▸ hagree'.reads hreads) hacts ((h.outEdges n).symm ▸ hfind)
  | ret hs hreads =>
    have hagree' := h.agree_transfer (Method.lt_exit_of_stmtAt_ne (by rw [hs]; nofun)) hagree
    rw [hs] at hagree'
    exact ⟨_, .ret (hsame.trans hs) (hagree'.reads hreads), .returned _⟩
  | stop hreads hstops =>
    have hn : n < m.exit := by
      refine Method.lt_exit_of_stmtAt_ne fun hnop => ?_
      rw [hnop] at hstops
      cases hstops
    refine ⟨_, .stop ?_ (hsame.symm ▸ hstops), .stopped n⟩
    rw [hsame]
    exact (h.agree_transfer hn hagree).reads hreads

/-- A run is matched by one of the method without the removable statements. -/
theorem run {es : List Event} (h : Removes p m c live is) (hint : m.IntOperands p)
    (hstart : Starts m vars) (hrun : Run m vars es s) :
    ∃ s', Run (m.blank is) vars es s' ∧ Related live s s' := by
  induction hrun with
  | start => exact ⟨_, .start, .running fun _ _ => rfl⟩
  | step hrun hstep ih =>
    obtain ⟨s', hrun', hrel⟩ := ih
    cases hrel with
    | returned | stopped => cases hstep
    | @running n vars₁ vars₂ hagree =>
      by_cases hmem : ∃ i ∈ is, n = i + 1
      · obtain ⟨i, hi, rfl⟩ := hmem
        have hn : i + 1 < m.exit := by
          refine Method.lt_exit_of_stmtAt_ne fun hnop => (h.removable i hi).defined?_ne_none ?_
          rw [hnop]
          rfl
        have hcov := covers_run h.constants hint hstart hrun (Nat.lt_succ_of_lt hn)
        obtain ⟨t', hstep', hrel'⟩ := h.step_removed hi hcov hagree hstep
        exact ⟨t', hrun'.step hstep', hrel'⟩
      · obtain ⟨t', hstep', hrel'⟩ :=
          h.step_kept (fun i hi hn => hmem ⟨i, hi, hn⟩) hagree hstep
        exact ⟨t', hrun'.step hstep', hrel'⟩

end Removes

variable {opts : Options} {dead : List Nat}

/-- Integers from integers only: with all the reported assignments without effect replaced by `nop`,
every run is matched by one with the same events, which ends the same. -/
theorem analyze_removable {es : List Event} {s : State} (hint : (p.method k).IntOperands p)
    (hskip : opts.skipSideEffects = true)
    (hc : (Constants.analyze p k opts.limit).start.1 = .ok c)
    (hdead : (analyze p k opts).start.1 = .ok dead) (hstart : Starts (p.method k) vars)
    (hrun : Run (p.method k) vars es s) :
    ∃ s', Run ((p.method k).blank
        (dead.filter fun i => i + 1 ∈ reachable (Cfg.ofMethod (p.method k)) c)) vars es s' ∧
      SameState s s' := by
  obtain ⟨c', live, hc', hlive, rfl⟩ := analyze_ok hdead
  obtain rfl : c' = c := Except.ok.inj (hc'.symm.trans hc)
  have hremoves : Removes p (p.method k) c' live
      ((detect (Cfg.ofMethod (p.method k)) c' live opts).filter
        fun i => i + 1 ∈ reachable (Cfg.ofMethod (p.method k)) c') := by
    refine ⟨equations_of_ok hc, plausible_inFact hc, Liveness.equations_of_ok hlive, ?_⟩
    intro i hi
    obtain ⟨hmem, hreach⟩ := List.mem_filter.mp hi
    rcases (mem_detect.mp hmem).2 with hnot | ⟨_, hassign, hharmless⟩
    · exact absurd (of_decide_eq_true hreach) hnot
    · rcases hharmless with hall | hharmless
      · rw [hskip] at hall
        cases hall
      · exact ⟨hassign, hharmless⟩
  obtain ⟨s', hrun', hrel⟩ := hremoves.run hint hstart hrun
  exact ⟨s', hrun', hrel.sameState⟩

/-- In the countdown the quotient is removed, and the run that computes it goes on without it. -/
theorem analyze_removable_countdown :
    ∃ vars' s', Run (Countdown.program.method 0) Countdown.vars
        [⟨1, some .fallThrough, none⟩, ⟨2, some .fallThrough, none⟩] (.running 3 vars') ∧
      (analyze Countdown.program 0 { skipSideEffects := true }).start.1 = .ok [1] ∧
      Run ((Countdown.program.method 0).blank [1]) Countdown.vars
        [⟨1, some .fallThrough, none⟩, ⟨2, some .fallThrough, none⟩] s' ∧
      SameState (.running 3 vars') s' := by
  have hlimit : ({ skipSideEffects := true } : Options).limit ≤ 0 := Int.le_refl 0
  obtain ⟨c, hc⟩ := Constants.analyze_succeeds Countdown.declared hlimit
  obtain ⟨dead, hdead⟩ := analyze_succeeds Countdown.declared hlimit
  have heval : (analyze Countdown.program 0 { skipSideEffects := true }).start.1.toOption =
      some [1] := by decide +kernel
  rw [hdead] at heval
  obtain rfl : dead = [1] := Option.some.inj heval
  -- the run goes on to the statement after the quotient
  have hreads : (Countdown.vars.put (some 1) (some (.int 1))).Reads
      ((Countdown.program.method 0).stmtAt 2).uses [.int 3, .int 1] := rfl
  have hacts : Acts ((Countdown.program.method 0).stmtAt 2) [.int 3, .int 1] .fallThrough
      (some (.int 3)) := .binary (.ints rfl)
  have hedge : ((Countdown.program.method 0).outEdges 2).find? (·.kind = .fallThrough) =
      some ⟨.fallThrough, 2, 3⟩ := rfl
  have hrun := Countdown.run.step (.go hreads hacts hedge)
  obtain ⟨s', hrun', hsame⟩ := analyze_removable Countdown.intOperands rfl hc hdead Countdown.starts
    hrun
  have hreach := reachable_of_run hc Countdown.intOperands Countdown.starts Countdown.run (by decide)
  have hall : [1].filter (fun i => i + 1 ∈ reachable (Cfg.ofMethod (Countdown.program.method 0)) c) =
      [1] := by
    rw [List.filter_eq_self]
    intro i hi
    obtain rfl := List.mem_singleton.mp hi
    exact decide_eq_true hreach
  rw [hall] at hrun'
  exact ⟨_, s', hrun, hdead, hrun', hsame⟩

end DeadCode

end WholeProgram
