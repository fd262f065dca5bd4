import Mathlib.Algebra.BigOperators.Group.Finset.Basic
import Mathlib.Data.List.Perm.Subperm
import Mathlib.Tactic.Linarith
import WholeProgram.CallGraph.ClassHierarchyAnalysis
import WholeProgram.Proofs.CallGraph.Views
import WholeProgram.Proofs.Log
import WholeProgram.Proofs.Program.Places

/-!
# The call graph by the class hierarchy is closed

A call graph that the analysis of the class hierarchy returns has the entry methods, and with a method
the callees of all its call sites (`analyze_hasCallees`). The invariant is that a callee of a reachable
method is reachable or waits (`Settled`); the rounds are enough because a call site has no more callees
than there are classes (`length_callees_le`), so that the methods that wait and the call sites that are
still to come get fewer in every round (`load`).
-/

namespace WholeProgram

/-! ## Dispatch -/

namespace Program

variable {p : Program} {c : ClassId} {subsig : String} {m : MethodId}

/-- Only classes of the program run methods. -/
theorem lt_of_dispatch (h : p.dispatch c subsig = some m) : c < p.classes.size := by
  by_contra hlt
  have hclass : p.class? c = none := by
    unfold class?
    exact Array.getElem?_eq_none (Nat.le_of_not_lt hlt)
  have hnone : p.dispatch c subsig = none := by
    unfold dispatch superChain
    cases p.classes.size with
    | zero => rfl
    | succ n => simp [superChain.go, concreteMethod?, declaredMethod?, superOf, hclass]
  rw [hnone] at h
  cases h

/-- What dispatch from a list of classes finds: each method once, and each for a class. -/
theorem dispatchAll_spec (cs : List ClassId) {found : List MethodId} (hfound : found.Nodup)
    (hclass : ∀ m ∈ found, ∃ c, p.dispatch c subsig = some m) :
    (p.dispatchAll subsig cs found).1.Nodup ∧
      ∀ m ∈ (p.dispatchAll subsig cs found).1, ∃ c, p.dispatch c subsig = some m := by
  induction cs generalizing found with
  | nil => exact ⟨hfound, hclass⟩
  | cons c cs ih =>
    unfold dispatchAll
    cases hm : p.dispatch c subsig with
    | none => exact ⟨hfound, hclass⟩
    | some m =>
      by_cases hmem : m ∈ found
      · simp only [List.contains_iff_mem, hmem, if_true]
        exact ih hfound hclass
      · simp only [List.contains_iff_mem, hmem, if_false]
        refine ih ?_ fun k hk => ?_
        · exact List.nodup_append.mpr ⟨hfound, List.nodup_singleton m, by
            rintro a ha b hb rfl
            exact hmem (List.mem_singleton.mp hb ▸ ha)⟩
        · rcases List.mem_append.mp hk with hk | hk
          · exact hclass k hk
          · exact ⟨c, List.mem_singleton.mp hk ▸ hm⟩

/-- Dispatch that does not fail finds a method for every class of the list. -/
theorem mem_dispatchAll (cs : List ClassId) (found : List MethodId)
    (h : (p.dispatchAll subsig cs found).2 = none) :
    (∀ m ∈ found, m ∈ (p.dispatchAll subsig cs found).1) ∧
      ∀ c ∈ cs, ∃ m ∈ (p.dispatchAll subsig cs found).1, p.dispatch c subsig = some m := by
  induction cs generalizing found with
  | nil => exact ⟨fun _ hm => hm, fun c hc => by cases hc⟩
  | cons c cs ih =>
    unfold dispatchAll at h ⊢
    cases hm : p.dispatch c subsig with
    | none =>
      rw [hm] at h
      cases h
    | some m =>
      rw [hm] at h
      dsimp only at h ⊢
      obtain ⟨hkept, hfound⟩ := ih _ h
      have hmem : m ∈ (if found.contains m then found else found ++ [m]) := by
        split
        · rename_i hcontains
          exact List.contains_iff_mem.mp hcontains
        · exact List.mem_append_right _ List.mem_cons_self
      have hsub : ∀ k ∈ found, k ∈ (if found.contains m then found else found ++ [m]) := by
        intro k hk
        split
        · exact hk
        · exact List.mem_append_left _ hk
      refine ⟨fun k hk => hkept k (hsub k hk), fun d hd => ?_⟩
      rcases List.mem_cons.mp hd with rfl | hd
      · exact ⟨m, hkept m hmem, hm⟩
      · exact hfound d hd

variable {site : Site} {call : Call} {r : Resolved}

/-- The concrete classes below a class. -/
def concreteBelow (p : Program) (c : ClassId) : List ClassId :=
  (p.allSubclasses c).filter fun d => !p.isAbstractClass d

/-- A static call and a special call are resolved by one dispatch. -/
theorem resolve_single (hkind : call.kind = .static ∨ call.kind = .special)
    (h : p.resolve site call = .ok r) :
    r.callees = (p.dispatch call.ref.cls call.ref.subsig).toList ∧
      (r.error = none → (p.dispatch call.ref.cls call.ref.subsig).isSome) := by
  rcases hkind with hkind | hkind
  all_goals
    simp only [resolve, hkind] at h
    cases hm : p.dispatch call.ref.cls call.ref.subsig with
    | some m =>
      rw [hm] at h
      cases h
      exact ⟨rfl, fun _ => rfl⟩
    | none =>
      rw [hm] at h
      cases h
      exact ⟨rfl, fun he => by cases he⟩

/-- A virtual call and an interface call are resolved by a dispatch for each concrete class below. -/
theorem resolve_below (hkind : call.kind = .virtual ∨ call.kind = .interface)
    (h : p.resolve site call = .ok r) :
    r.callees = (p.dispatchAll call.ref.subsig (p.concreteBelow call.ref.cls) []).1 ∧
      (r.error = none →
        (p.dispatchAll call.ref.subsig (p.concreteBelow call.ref.cls) []).2 = none) := by
  rcases hkind with hkind | hkind
  all_goals
    simp only [resolve, hkind] at h
    cases h
    exact ⟨rfl, Option.map_eq_none_iff.mp⟩

/-- There is no other way to resolve a call. -/
theorem kind_of_resolve (h : p.resolve site call = .ok r) :
    (call.kind = .static ∨ call.kind = .special) ∨ (call.kind = .virtual ∨ call.kind = .interface) := by
  cases hkind : call.kind with
  | static => exact Or.inl (Or.inl rfl)
  | special => exact Or.inl (Or.inr rfl)
  | virtual => exact Or.inr (Or.inl rfl)
  | interface => exact Or.inr (Or.inr rfl)
  | undeclared n =>
    simp only [resolve, hkind] at h
    cases h

/-- A call site has at most one callee for each class. -/
theorem length_callees_le (h : p.resolve site call = .ok r) : r.callees.length ≤ p.classes.size := by
  have hspec : r.callees.Nodup ∧ ∀ m ∈ r.callees, ∃ c, p.dispatch c call.ref.subsig = some m := by
    rcases kind_of_resolve h with hkind | hkind
    · rw [(resolve_single hkind h).1]
      refine ⟨?_, fun m hm => ⟨_, Option.mem_toList.mp hm⟩⟩
      cases p.dispatch call.ref.cls call.ref.subsig with
      | none => exact List.nodup_nil
      | some m => exact List.nodup_singleton m
    · rw [(resolve_below hkind h).1]
      exact dispatchAll_spec _ List.nodup_nil fun m hm => by cases hm
  have hsub : r.callees ⊆ (List.range p.classes.size).filterMap (p.dispatch · call.ref.subsig) := by
    intro m hm
    obtain ⟨c, hc⟩ := hspec.2 m hm
    exact List.mem_filterMap.mpr ⟨c, List.mem_range.mpr (lt_of_dispatch hc), hc⟩
  calc r.callees.length
      ≤ ((List.range p.classes.size).filterMap (p.dispatch · call.ref.subsig)).length :=
        (List.subperm_of_subset hspec.1 hsub).length_le
    _ ≤ (List.range p.classes.size).length := List.length_filterMap_le _ _
    _ = p.classes.size := List.length_range

/-- The class that a special call names runs a callee, if the call is resolved. -/
theorem dispatch_of_special (h : p.resolve site call = .ok r) (herr : r.error = none)
    (hkind : call.kind = .special) :
    ∃ m ∈ r.callees, p.dispatch call.ref.cls call.ref.subsig = some m := by
  obtain ⟨hr, hsome⟩ := resolve_single (Or.inr hkind) h
  obtain ⟨m, hm⟩ := Option.isSome_iff_exists.mp (hsome herr)
  exact ⟨m, by simp [hr, hm], hm⟩

/-- Every concrete class below the one that a virtual call or an interface call names runs a callee, if
the call is resolved. -/
theorem dispatch_of_virtual (h : p.resolve site call = .ok r) (herr : r.error = none)
    (hkind : call.kind = .virtual ∨ call.kind = .interface) (hc : c ∈ p.allSubclasses call.ref.cls)
    (hconcrete : p.isAbstractClass c = false) :
    ∃ m ∈ r.callees, p.dispatch c call.ref.subsig = some m := by
  obtain ⟨hr, hnone⟩ := resolve_below hkind h
  rw [hr]
  exact (mem_dispatchAll _ [] (hnone herr)).2 c (List.mem_filter.mpr ⟨hc, by simp [hconcrete]⟩)

end Program

namespace ClassHierarchyAnalysis

variable {p : Program} {ignore : Bool} {s s' s'' : State} {site : Site} {n n' : Nat}

/-! ## One call site -/

/-- From `s` to `s'` at most `n` methods came to wait, and edges were added; nothing else changed. -/
structure Grows (n : Nat) (s s' : State) : Prop where
  consistent : s'.graph.Consistent
  reachable : s'.graph.reachable = s.graph.reachable
  edges : ∀ site m, s.graph.HasEdge site m → s'.graph.HasEdge site m
  waiting : ∀ m ∈ s.waiting.toList, m ∈ s'.waiting.toList
  size : s'.waiting.toList.length ≤ s.waiting.toList.length + n

theorem Grows.refl (hs : s.graph.Consistent) (n : Nat) : Grows n s s :=
  ⟨hs, rfl, fun _ _ h => h, fun _ h => h, Nat.le_add_right _ _⟩

theorem Grows.trans (h : Grows n s s') (h' : Grows n' s' s'') : Grows (n + n') s s'' where
  consistent := h'.consistent
  reachable := h'.reachable.trans h.reachable
  edges := fun site m he => h'.edges site m (h.edges site m he)
  waiting := fun m hm => h'.waiting m (h.waiting m hm)
  size := by
    have := h.size
    have := h'.size
    omega

theorem Grows.mono (h : Grows n s s') (hn : n ≤ n') : Grows n' s s' :=
  { h with size := h.size.trans (Nat.add_le_add_left hn _) }

/-- The method is reachable or waits. -/
def Due (s : State) (m : MethodId) : Prop := m ∈ s.graph.reachable ∨ m ∈ s.waiting.toList

theorem Grows.due (h : Grows n s s') {m : MethodId} (hm : Due s m) : Due s' m :=
  hm.imp (fun hm => h.reachable ▸ hm) (h.waiting m)

/-- One callee of a call site has its edge, and is reachable or waits. -/
theorem grows_addCallee (hs : s.graph.Consistent) (site : Site) (kind : CallKind) (m : MethodId) :
    Grows 1 s (addCallees site kind [m] s) ∧ (addCallees site kind [m] s).graph.HasEdge site m ∧
      Due (addCallees site kind [m] s) m := by
  have hedge := fun s' k => CallGraph.hasEdge_addEdge hs kind site s' m k
  have hgraph := hs.addEdge kind site m
  have hreach := CallGraph.addEdge_reachable (g := s.graph) kind site m
  simp only [addCallees, List.foldl_cons, List.foldl_nil]
  generalize (s.graph.addEdge kind site m).1 = g at hedge hgraph hreach
  refine ⟨⟨hgraph, hreach, fun s' k h => (hedge s' k).mpr (Or.inl h), fun k hk => ?_, ?_⟩,
    (hedge site m).mpr (Or.inr ⟨rfl, rfl⟩), ?_⟩
  · dsimp only
    split
    · exact hk
    · rw [Queue.toList_push]
      exact List.mem_append_left _ hk
  · dsimp only
    split
    · exact Nat.le_succ _
    · simp
  · by_cases hm : g.isReachable m = true
    · exact Or.inl ((hgraph.reached m).mp hm)
    · exact Or.inr (by simp [hm])

/-- The callees of a call site have their edges, and are reachable or wait. -/
theorem grows_addCallees (hs : s.graph.Consistent) (site : Site) (kind : CallKind)
    (callees : List MethodId) :
    Grows callees.length s (addCallees site kind callees s) ∧
      ∀ m ∈ callees, (addCallees site kind callees s).graph.HasEdge site m ∧
        Due (addCallees site kind callees s) m := by
  induction callees generalizing s with
  | nil => exact ⟨.refl hs _, fun m hm => by cases hm⟩
  | cons m callees ih =>
    obtain ⟨hone, hedge, hdue⟩ := grows_addCallee hs site kind m
    obtain ⟨hrest, hall⟩ := ih hone.consistent
    have heq : addCallees site kind (m :: callees) s =
        addCallees site kind callees (addCallees site kind [m] s) := rfl
    rw [heq, List.length_cons, Nat.add_comm]
    refine ⟨hone.trans hrest, fun k hk => ?_⟩
    rcases List.mem_cons.mp hk with rfl | hk
    · exact ⟨hrest.edges _ _ hedge, hrest.due hdue⟩
    · exact hall k hk

/-- The call of a call site is resolved, with no error if errors are not ignored, and its callees are
reachable or wait. -/
def Settled (p : Program) (ignore : Bool) (s : State) (site : Site) : Prop :=
  ∀ call, p.callAt? site = some call → ∃ r, p.resolve site call = .ok r ∧ (ignore = false → r.error = none) ∧
    ∀ m ∈ r.callees, s.graph.HasEdge site m ∧ Due s m

theorem Settled.mono (h : Settled p ignore s site)
    (hedges : ∀ site m, s.graph.HasEdge site m → s'.graph.HasEdge site m)
    (hdue : ∀ m, Due s m → Due s' m) : Settled p ignore s' site := by
  intro call hcall
  obtain ⟨r, hr, herr, hall⟩ := h call hcall
  exact ⟨r, hr, herr, fun m hm => ⟨hedges _ _ (hall m hm).1, hdue m (hall m hm).2⟩⟩

/-- A call site that is processed without an error is settled. -/
theorem grows_processSite (hs : s.graph.Consistent) (h : (processSite p ignore site s).Gives s') :
    Grows p.classes.size s s' ∧ Settled p ignore s' site := by
  unfold processSite at h
  cases hcall : p.callAt? site with
  | none =>
    rw [hcall] at h
    obtain rfl := h.eq_of_pure
    exact ⟨.refl hs _, fun call hc => by cases hcall.symm.trans hc⟩
  | some call =>
    rw [hcall] at h
    cases hres : p.resolve site call with
    | error code =>
      simp only [hres] at h
      exact absurd h Logged.Gives.not_throw
    | ok r =>
      simp only [hres] at h
      obtain ⟨herr, rfl⟩ : (ignore = false → r.error = none) ∧ addCallees site call.kind r.callees s = s' := by
        cases herr : r.error with
        | some e =>
          simp only [herr] at h
          cases ignore with
          | false =>
            obtain ⟨_, hthrow, -⟩ := h.bind
            exact absurd hthrow Logged.Gives.not_throw
          | true =>
            obtain ⟨_, -, h⟩ := h.bind
            exact ⟨nofun, h.eq_of_pure⟩
        | none =>
          simp only [herr] at h
          exact ⟨fun _ => rfl, h.eq_of_pure⟩
      obtain ⟨hgrows, hall⟩ := grows_addCallees hs site call.kind r.callees
      refine ⟨hgrows.mono (Program.length_callees_le hres), fun call' hcall' => ?_⟩
      cases hcall.symm.trans hcall'
      exact ⟨r, hres, herr, hall⟩

/-- The call sites of a list are settled one after another. -/
theorem grows_processSites (sites : List Site) (hs : s.graph.Consistent)
    (h : (sites.foldlM (fun s site => processSite p ignore site s) s).Gives s') :
    Grows (sites.length * p.classes.size) s s' ∧ ∀ site ∈ sites, Settled p ignore s' site := by
  induction sites generalizing s with
  | nil =>
    obtain rfl := h.eq_of_pure
    exact ⟨.refl hs _, fun site hsite => by cases hsite⟩
  | cons site sites ih =>
    rw [List.foldlM_cons] at h
    obtain ⟨s₁, hone, hrest⟩ := h.bind
    obtain ⟨hgrows, hsettled⟩ := grows_processSite hs hone
    obtain ⟨hgrows', hall⟩ := ih hgrows.consistent hrest
    rw [List.length_cons, Nat.succ_mul, Nat.add_comm]
    refine ⟨hgrows.trans hgrows', fun site' hsite' => ?_⟩
    rcases List.mem_cons.mp hsite' with rfl | hsite'
    · exact hsettled.mono hgrows'.edges fun m hm => hgrows'.due hm
    · exact hall site' hsite'

/-! ## Rounds -/

/-- The call sites of reachable methods are settled, and the entry methods are reachable or wait. -/
structure Inv (p : Program) (ignore : Bool) (s : State) : Prop where
  consistent : s.graph.Consistent
  settled : ∀ m ∈ s.graph.reachable, ∀ site ∈ p.sitesIn m, Settled p ignore s site
  entries : ∀ m ∈ p.entries, Due s m

/-- The number of call sites of methods that are not reachable so far. -/
def sitesLeft (p : Program) (g : MethodCallGraph) : Nat :=
  ∑ m ∈ (Finset.range p.methods.size).filter (· ∉ g.reachable), (p.sitesIn m).length

/-- A bound for the rounds to come. -/
def load (p : Program) (s : State) : Nat :=
  s.waiting.toList.length + sitesLeft p s.graph * p.classes.size

/-- What is no method of the program has no call sites. -/
theorem sitesIn_eq_nil {m : MethodId} (hm : p.methods.size ≤ m) : p.sitesIn m = [] := by
  rw [Program.sitesIn, Program.method_eq_default hm]
  rfl

/-- A method that becomes reachable takes its call sites along. -/
theorem sitesLeft_push {g g' : MethodCallGraph} {m : MethodId} (hnew : m ∉ g.reachable)
    (hg : ∀ k, k ∈ g'.reachable ↔ k ∈ g.reachable ∨ m = k) :
    sitesLeft p g' + (p.sitesIn m).length = sitesLeft p g := by
  unfold sitesLeft
  by_cases hm : m < p.methods.size
  · have hmem : m ∈ (Finset.range p.methods.size).filter (· ∉ g.reachable) :=
      Finset.mem_filter.mpr ⟨Finset.mem_range.mpr hm, hnew⟩
    have herase : (Finset.range p.methods.size).filter (· ∉ g'.reachable) =
        ((Finset.range p.methods.size).filter (· ∉ g.reachable)).erase m := by
      ext k
      simp only [Finset.mem_filter, Finset.mem_erase, hg]
      grind
    rw [herase, Nat.add_comm]
    exact Finset.add_sum_erase _ (fun k => (p.sitesIn k).length) hmem
  · rw [sitesIn_eq_nil (Nat.le_of_not_lt hm)]
    have hsame : (Finset.range p.methods.size).filter (· ∉ g'.reachable) =
        (Finset.range p.methods.size).filter (· ∉ g.reachable) := by
      refine Finset.filter_congr fun k hk => ?_
      have hk := Finset.mem_range.mp hk
      rw [hg]
      grind
    rw [hsame]
    rfl

/-- A method that is reachable already is taken off the queue. -/
theorem Inv.skip (hs : Inv p ignore s) {m : MethodId} {w : Queue MethodId} (hpop : s.waiting.pop? = some (m, w))
    (hold : m ∈ s.graph.reachable) :
    Inv p ignore { graph := s.graph, waiting := w } ∧
      load p { graph := s.graph, waiting := w } < load p s := by
  have hwaiting := Queue.toList_pop? _ _ _ hpop
  have hlength : s.waiting.toList.length = w.toList.length + 1 := by rw [hwaiting]; rfl
  have hdue : ∀ k, Due s k → Due { graph := s.graph, waiting := w } k := by
    rintro k (hk | hk)
    · exact Or.inl hk
    · rw [hwaiting] at hk
      rcases List.mem_cons.mp hk with rfl | hk
      · exact Or.inl hold
      · exact Or.inr hk
  refine ⟨⟨hs.consistent, fun k hk site hsite => ?_, fun k hk => hdue k (hs.entries k hk)⟩, ?_⟩
  · exact (hs.settled k hk site hsite).mono (fun _ _ he => he) hdue
  · unfold load
    dsimp only
    omega

/-- A method that becomes reachable has its call sites settled. -/
theorem Inv.visit (hs : Inv p ignore s) {m : MethodId} {w : Queue MethodId} (hpop : s.waiting.pop? = some (m, w))
    (hnew : m ∉ s.graph.reachable)
    (hsites : ((p.sitesIn m).foldlM (fun s site => processSite p ignore site s)
      { graph := (s.graph.addReachable m).1, waiting := w }).Gives s') :
    Inv p ignore s' ∧ load p s' < load p s := by
  have hwaiting := Queue.toList_pop? _ _ _ hpop
  have hlength : s.waiting.toList.length = w.toList.length + 1 := by rw [hwaiting]; rfl
  have hmem := CallGraph.mem_addReachable hs.consistent m
  have hedges := CallGraph.addReachable_edges (g := s.graph) m
  have hcons := hs.consistent.addReachable m
  generalize (s.graph.addReachable m).1 = g at hmem hedges hcons hsites
  obtain ⟨hgrows, hall⟩ := grows_processSites _ hcons hsites
  have hdue : ∀ k, Due s k → Due s' k := by
    intro k hk
    refine hgrows.due (?_ : Due { graph := g, waiting := w } k)
    rcases hk with hk | hk
    · exact Or.inl ((hmem k).mpr (Or.inl hk))
    · rw [hwaiting] at hk
      rcases List.mem_cons.mp hk with rfl | hk
      · exact Or.inl ((hmem k).mpr (Or.inr rfl))
      · exact Or.inr hk
  have hkeep : ∀ site k, s.graph.HasEdge site k → s'.graph.HasEdge site k := by
    rintro site k ⟨e, he, hends⟩
    exact hgrows.edges site k ⟨e, hedges ▸ he, hends⟩
  refine ⟨⟨hgrows.consistent, fun k hk site hsite => ?_, fun k hk => hdue k (hs.entries k hk)⟩, ?_⟩
  · rw [hgrows.reachable] at hk
    rcases (hmem k).mp hk with hk | rfl
    · exact (hs.settled k hk site hsite).mono hkeep hdue
    · exact hall site hsite
  · have hleft : sitesLeft p s'.graph + (p.sitesIn m).length = sitesLeft p s.graph :=
      sitesLeft_push hnew fun k => by rw [hgrows.reachable]; exact hmem k
    have hsize : s'.waiting.toList.length ≤ w.toList.length + (p.sitesIn m).length * p.classes.size :=
      hgrows.size
    unfold load
    rw [← hleft, Nat.add_mul]
    omega

/-- A round in which the method that was taken off the queue is not new. -/
theorem loop_skip (hs : s.graph.Consistent) {m : MethodId} {w : Queue MethodId} {fuel : Nat}
    (hpop : s.waiting.pop? = some (m, w)) (hold : m ∈ s.graph.reachable) :
    loop p ignore (fuel + 1) s = loop p ignore fuel { graph := s.graph, waiting := w } := by
  rcases CallGraph.addReachable_eq hs m with ⟨-, heq⟩ | ⟨hnew, -⟩
  · rw [loop, hpop]
    simp only [heq]
  · exact absurd hold hnew

/-- A round in which it is new, so that its call sites are processed. -/
theorem loop_visit (hs : s.graph.Consistent) {m : MethodId} {w : Queue MethodId} {fuel : Nat}
    (hpop : s.waiting.pop? = some (m, w)) (hnew : m ∉ s.graph.reachable) :
    loop p ignore (fuel + 1) s = (do
      Logged.say .trace ("CHA: new reachable method " ++ p.methodText m)
      let s ← (p.sitesIn m).foldlM (fun s site => processSite p ignore site s)
        { graph := (s.graph.addReachable m).1, waiting := w }
      loop p ignore fuel s) := by
  rcases CallGraph.addReachable_eq hs m with ⟨hold, -⟩ | ⟨-, heq⟩
  · exact absurd hold hnew
  · rw [loop, hpop]
    simp only [heq]

/-- A round keeps the invariant, and leaves less to do. -/
theorem Inv.round (hs : Inv p ignore s) {m : MethodId} {w : Queue MethodId} {fuel : Nat}
    (hpop : s.waiting.pop? = some (m, w)) (h : (loop p ignore (fuel + 1) s).Gives s') :
    ∃ t, Inv p ignore t ∧ load p t < load p s ∧ (loop p ignore fuel t).Gives s' := by
  by_cases hold : m ∈ s.graph.reachable
  · rw [loop_skip hs.consistent hpop hold] at h
    obtain ⟨hinv, hless⟩ := hs.skip hpop hold
    exact ⟨_, hinv, hless, h⟩
  · rw [loop_visit hs.consistent hpop hold] at h
    obtain ⟨_, -, h⟩ := h.bind
    obtain ⟨t, hsites, h⟩ := h.bind
    obtain ⟨hinv, hless⟩ := hs.visit hpop hold hsites
    exact ⟨t, hinv, hless, h⟩

/-- With fuel for all rounds, no method waits in the end. -/
theorem Inv.loop {fuel : Nat} (hs : Inv p ignore s) (hfuel : load p s < fuel)
    (h : (loop p ignore fuel s).Gives s') : Inv p ignore s' ∧ s'.waiting.toList = [] := by
  induction fuel generalizing s with
  | zero => exact absurd hfuel (Nat.not_lt_zero _)
  | succ fuel ih =>
    cases hpop : s.waiting.pop? with
    | none =>
      unfold ClassHierarchyAnalysis.loop at h
      simp only [hpop] at h
      obtain rfl := h.eq_of_pure
      exact ⟨hs, (Queue.pop?_eq_none_iff _).mp hpop⟩
    | some q =>
      obtain ⟨t, ht, hless, hrest⟩ := hs.round hpop h
      exact ih ht (by omega) hrest

/-! ## The whole analysis -/

/-- The state before the first round. -/
def start (p : Program) : State :=
  p.entries.foldl (fun s e => { graph := s.graph.addEntry e, waiting := s.waiting.push e }) {}

/-- Before the first round the entry methods wait, and nothing is reachable. -/
theorem start_spec (p : Program) : (start p).graph.Consistent ∧ (start p).graph.reachable = #[] ∧
    (start p).waiting.toList = p.entries := by
  have hfold : ∀ (es : List MethodId) (s : State), s.graph.Consistent →
      (es.foldl (fun s e => ⟨s.graph.addEntry e, s.waiting.push e⟩) s).graph.Consistent ∧
      (es.foldl (fun s e => ⟨s.graph.addEntry e, s.waiting.push e⟩) s).graph.reachable =
        s.graph.reachable ∧
      (es.foldl (fun s e => ⟨s.graph.addEntry e, s.waiting.push e⟩) s).waiting.toList =
        s.waiting.toList ++ es := by
    intro es
    induction es with
    | nil => exact fun s hs => ⟨hs, rfl, by simp⟩
    | cons e es ih =>
      intro s hs
      obtain ⟨hcons, hreach, hwaiting⟩ := ih ⟨s.graph.addEntry e, s.waiting.push e⟩ (hs.addEntry e)
      exact ⟨hcons, by simpa using hreach, by simpa using hwaiting⟩
  exact hfold p.entries {} CallGraph.consistent_empty

theorem inv_start (p : Program) (ignore : Bool) : Inv p ignore (start p) := by
  obtain ⟨hcons, hreach, hwaiting⟩ := start_spec p
  refine ⟨hcons, fun m hm => ?_, fun m hm => Or.inr (by rw [hwaiting]; exact hm)⟩
  rw [hreach] at hm
  simp at hm

/-- The call sites of a program are those of its methods. -/
theorem sum_sitesIn (p : Program) :
    ∑ m ∈ Finset.range p.methods.size, (p.sitesIn m).length = numSites p := by
  refine (Array.foldl_induction
    (fun i n => n = ∑ m ∈ Finset.range i, (p.sitesIn m).length) rfl fun i n hn => ?_).symm
  have hmethod : p.method i = p.methods[i] := by simp [Program.method]
  rw [Finset.sum_range_succ, hn, Program.sitesIn, List.length_map, hmethod]

theorem load_start (p : Program) :
    load p (start p) = p.entries.length + numSites p * p.classes.size := by
  obtain ⟨-, hreach, hwaiting⟩ := start_spec p
  unfold load sitesLeft
  rw [hwaiting, hreach, ← sum_sitesIn]
  simp

/-- The graph has the entry methods, and with a method the callees of all its calls, which are
resolved. -/
structure HasCallees (p : Program) (g : MethodCallGraph) : Prop where
  entries : ∀ m ∈ p.entries, m ∈ g.reachable
  calls : ∀ m ∈ g.reachable, ∀ site ∈ p.sitesIn m, ∀ call, p.callAt? site = some call →
    ∃ r, p.resolve site call = .ok r ∧ r.error = none ∧
      ∀ k ∈ r.callees, g.HasEdge site k ∧ k ∈ g.reachable

/-- A call graph by the class hierarchy has the entry methods, and the callees that were found for the calls
of its methods; only programs with an entry method have one. -/
theorem analyze_closed {g : MethodCallGraph} (h : (analyze p ignore).start.1 = .ok g) :
    p.entries ≠ [] ∧ (∀ m ∈ p.entries, m ∈ g.reachable) ∧
      ∀ m ∈ g.reachable, ∀ site ∈ p.sitesIn m, ∀ call, p.callAt? site = some call →
        ∃ r, p.resolve site call = .ok r ∧ (ignore = false → r.error = none) ∧
          ∀ k ∈ r.callees, g.HasEdge site k ∧ k ∈ g.reachable := by
  have hgives := Logged.Gives.of_start h
  unfold analyze at hgives
  by_cases hempty : p.entries.isEmpty
  · simp only [hempty, if_true] at hgives
    obtain ⟨_, hthrow, -⟩ := hgives.bind
    exact absurd hthrow Logged.Gives.not_throw
  · refine ⟨fun hnil => hempty (by rw [hnil]; rfl), ?_⟩
    simp only [hempty] at hgives
    obtain ⟨s, hloop, hrest⟩ := hgives.bind
    obtain ⟨_, -, hpure⟩ := hrest.bind
    obtain rfl := hpure.eq_of_pure
    obtain ⟨hs, hdone⟩ := (inv_start p ignore).loop (by rw [load_start]; exact Nat.lt_succ_self _) hloop
    -- nothing waits, so that what is due is reachable
    have hdue : ∀ m, Due s m → m ∈ s.graph.reachable := by
      rintro m (hm | hm)
      · exact hm
      · rw [hdone] at hm
        cases hm
    refine ⟨fun m hm => hdue m (hs.entries m hm), fun m hm site hsite call hcall => ?_⟩
    obtain ⟨r, hr, herr, hall⟩ := hs.settled m hm site hsite call hcall
    exact ⟨r, hr, herr, fun k hk => ⟨(hall k hk).1, hdue k (hall k hk).2⟩⟩

/-- A call graph by the class hierarchy has all that it should have, and only programs with an entry
method have one. -/
theorem analyze_hasCallees {g : MethodCallGraph} (h : (analyze p false).start.1 = .ok g) :
    p.entries ≠ [] ∧ HasCallees p g := by
  obtain ⟨hne, hentries, hcalls⟩ := analyze_closed h
  refine ⟨hne, hentries, fun m hm site hsite call hcall => ?_⟩
  obtain ⟨r, hr, herr, hall⟩ := hcalls m hm site hsite call hcall
  exact ⟨r, hr, herr rfl, hall⟩

/-! ## Programs whose calls are resolved -/

/-- The class hierarchy has all callees of all calls. -/
def ResolvedCalls (p : Program) : Prop :=
  ∀ site call, p.callAt? site = some call → ∃ r, p.resolve site call = .ok r ∧ r.error = none

theorem processSite_yields (hp : ResolvedCalls p) (site : Site) (s : State) :
    ∃ s', (processSite p false site s).Yields (.ok s') := by
  unfold processSite
  cases hcall : p.callAt? site with
  | none => exact ⟨s, .pure s⟩
  | some call =>
    obtain ⟨r, hr, herr⟩ := hp site call hcall
    simp only [hr, herr]
    exact ⟨_, .pure _⟩

theorem processSites_yields (hp : ResolvedCalls p) (sites : List Site) (s : State) :
    ∃ s', Logged.Yields (sites.foldlM (fun s site => processSite p false site s) s) (.ok s') := by
  induction sites generalizing s with
  | nil => exact ⟨s, .pure s⟩
  | cons site sites ih =>
    obtain ⟨s₁, hone⟩ := processSite_yields hp site s
    obtain ⟨s', hrest⟩ := ih s₁
    rw [List.foldlM_cons]
    exact ⟨s', hone.bind_ok hrest⟩

theorem loop_yields (hp : ResolvedCalls p) (fuel : Nat) (s : State) :
    ∃ s', (loop p false fuel s).Yields (.ok s') := by
  induction fuel generalizing s with
  | zero => exact ⟨s, .pure s⟩
  | succ fuel ih =>
    unfold loop
    split
    · exact ⟨s, .pure s⟩
    · rename_i m w _
      split
      · exact ih _
      · rename_i g _
        obtain ⟨s₁, hsites⟩ := processSites_yields hp (p.sitesIn m) { graph := g, waiting := w }
        obtain ⟨s', hrest⟩ := ih s₁
        exact ⟨s', (Logged.Yields.say _ _).bind_ok (hsites.bind_ok hrest)⟩

/-- A program with an entry method has a call graph if all calls are resolved. -/
theorem analyze_succeeds (hp : ResolvedCalls p) (hentries : p.entries ≠ []) :
    ∃ g, (analyze p false).start.1 = .ok g := by
  obtain ⟨s, hloop⟩ := loop_yields hp (p.entries.length + numSites p * p.classes.size + 1) (start p)
  have hyields : (analyze p false).Yields (.ok s.graph) := by
    unfold analyze
    simp only [List.isEmpty_iff, hentries, if_false]
    exact hloop.bind_ok ((Logged.Yields.say _ _).bind_ok (.pure _))
  exact ⟨_, hyields.start⟩

end ClassHierarchyAnalysis

end WholeProgram
