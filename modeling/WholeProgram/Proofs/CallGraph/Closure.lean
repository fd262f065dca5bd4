import WholeProgram.Proofs.CallGraph.ClassHierarchy

/-!
# The call graph by the class hierarchy is the exact closure

* `Reached` — the methods that the entry methods reach over resolved calls;
* `Sound` — what the analysis has found so far is reached, and its edges are resolved calls;
* `loop_spec` — the rounds end, with a sound state in which nothing waits, or with the error of a call site
  of a reached method; more rounds would change nothing;
* `reached_of_analyze` — a call graph has reached methods and resolved calls only;
* `analyze_exact_closure` — there is a call graph exactly when all calls of reached methods are resolved,
  and it has the reached methods and the resolved calls, each once.

Where errors are ignored, a call contributes the callees that were found for it before the error.

* `Found` — the methods that the entry methods reach over such callees;
* `loop_ignoring` — a round finds nothing else, and ends in no error but that of a call of a kind that is
  not declared;
* `analyze_ignoring` — the call graph has the methods and the calls that are found.
-/

namespace WholeProgram.ClassHierarchyAnalysis

variable {p : Program} {s s' : State} {site : Site} {m k : MethodId} {fuel : Nat}

/-- The call of the site is resolved to the callees. -/
def ResolvedTo (p : Program) (site : Site) (callees : List MethodId) : Prop :=
  ∃ r, p.resolveSite site = .ok r ∧ r.error = none ∧ r.callees = callees

/-- The methods that the entry methods reach over resolved calls. -/
inductive Reached (p : Program) : MethodId → Prop
  | entry {m : MethodId} : m ∈ p.entries → Reached p m
  | callee {m k : MethodId} {site : Site} {callees : List MethodId} : Reached p m → site ∈ p.sitesIn m →
      ResolvedTo p site callees → k ∈ callees → Reached p k

/-- The site is one of a reached method, its call has the kind and is resolved, and may run the callee. -/
def ReachedCall (p : Program) (e : CallEdge Site MethodId) : Prop :=
  ∃ m call callees, Reached p m ∧ e.site ∈ p.sitesIn m ∧ p.callAt? e.site = some call ∧ e.kind = call.kind ∧
    ResolvedTo p e.site callees ∧ e.callee ∈ callees

/-- The error is that of a call site of a reached method. -/
def ReachedError (p : Program) (e : DispatchError) : Prop :=
  ∃ m site r, Reached p m ∧ site ∈ p.sitesIn m ∧ p.resolveSite site = .ok r ∧ r.error = some e ∧
    e.site = some site

/-- All calls are of kinds that there are. -/
def DeclaredKinds (p : Program) : Prop :=
  ∀ site call, p.callAt? site = some call → ∀ code, call.kind ≠ .undeclared code

/-! ## What is found is reached -/

/-- The methods and the edges of a state are of the given kinds. -/
structure Within (M : MethodId → Prop) (E : CallEdge Site MethodId → Prop) (s : State) : Prop where
  built : s.graph.Built
  reachable : ∀ m ∈ s.graph.reachable, M m
  waiting : ∀ m ∈ s.waiting.toList, M m
  edges : ∀ e ∈ s.graph.edges, E e

/-- The methods and the edges of a state are reached. -/
abbrev Sound (p : Program) (s : State) : Prop := Within (Reached p) (ReachedCall p) s

theorem ReachedCall.callee {e : CallEdge Site MethodId} (h : ReachedCall p e) : Reached p e.callee := by
  obtain ⟨m, call, callees, hm, hsite, -, -, hresolved, hcallee⟩ := h
  exact hm.callee hsite hresolved hcallee

section Within

variable {M : MethodId → Prop} {E : CallEdge Site MethodId → Prop}

theorem Within.addCallee (hs : Within M E s) {kind : CallKind} (he : E ⟨kind, site, k⟩) (hk : M k) :
    Within M E (addCallees site kind [k] s) := by
  have hreach := CallGraph.addEdge_reachable (g := s.graph) kind site k
  have hbuilt := hs.built.edge kind site k
  have hedges : ∀ e ∈ (s.graph.addEdge kind site k).1.edges, E e := by
    rcases CallGraph.addEdge_eq hs.built.consistent kind site k with ⟨-, heq⟩ | ⟨-, joined, outs, ins, heq⟩
    · rw [heq]
      exact hs.edges
    · rw [heq]
      intro e hmem
      rcases Array.mem_push.mp hmem with hmem | rfl
      · exact hs.edges e hmem
      · exact he
  simp only [addCallees, List.foldl_cons, List.foldl_nil]
  generalize (s.graph.addEdge kind site k).1 = g at hreach hbuilt hedges
  refine ⟨hbuilt, fun m hm => hs.reachable m (hreach ▸ hm), fun m hm => ?_, hedges⟩
  dsimp only at hm
  split at hm
  · exact hs.waiting m hm
  · rw [Queue.toList_push] at hm
    rcases List.mem_append.mp hm with hm | hm
    · exact hs.waiting m hm
    · exact List.mem_singleton.mp hm ▸ hk

theorem Within.addCallees (callees : List MethodId) {kind : CallKind} (hs : Within M E s)
    (he : ∀ k ∈ callees, E ⟨kind, site, k⟩ ∧ M k) : Within M E (addCallees site kind callees s) := by
  induction callees generalizing s with
  | nil => exact hs
  | cons k callees ih =>
    obtain ⟨hedge, hk⟩ := he k List.mem_cons_self
    exact ih (hs.addCallee hedge hk) fun j hj => he j (List.mem_cons_of_mem k hj)

theorem Within.addReachable (hs : Within M E s) {w : Queue MethodId} (hm : M m)
    (hw : ∀ k ∈ w.toList, M k) : Within M E { graph := (s.graph.addReachable m).1, waiting := w } where
  built := hs.built.reach m
  reachable k hk := by
    rcases (CallGraph.mem_addReachable hs.built.consistent m k).mp hk with hk | rfl
    · exact hs.reachable k hk
    · exact hm
  waiting := hw
  edges e he := hs.edges e (CallGraph.addReachable_edges (g := s.graph) m ▸ he)

/-- Before the first round there are no edges, and only entry methods. -/
theorem within_start (hentries : ∀ m ∈ p.entries, M m) : Within M E (start p) := by
  obtain ⟨-, hreach, hwaiting⟩ := start_spec p
  have hbuilt : (start p).graph.Built ∧ (start p).graph.edges = #[] := by
    unfold start
    refine List.foldlRecOn (motive := fun s : State => s.graph.Built ∧ s.graph.edges = #[]) _ _ ⟨.empty, rfl⟩
      fun s hs m _ => ⟨hs.1.entry m, ?_⟩
    rw [CallGraph.addEntry_edges, hs.2]
  refine ⟨hbuilt.1, fun m hm => ?_, fun m hm => hentries m (hwaiting ▸ hm), fun e he => ?_⟩
  · rw [hreach] at hm
    simp at hm
  · rw [hbuilt.2] at he
    simp at he

end Within

/-! ## Outcomes -/

theorem resolveSite_eq {call : Call} (hcall : p.callAt? site = some call) :
    p.resolveSite site = p.resolve site call := by
  rw [Program.resolveSite, hcall]

/-- An error of a call names its call site. -/
theorem site_of_error {call : Call} {r : Program.Resolved} {e : DispatchError}
    (h : p.resolve site call = .ok r) (he : r.error = some e) : e.site = some site := by
  unfold Program.resolve at h
  cases hkind : call.kind with
  | static | special =>
    simp only [hkind] at h
    cases hm : p.dispatch call.ref.cls call.ref.subsig with
    | some m =>
      rw [hm] at h
      cases h
      cases he
    | none =>
      rw [hm] at h
      cases h
      cases he
      rfl
  | virtual | interface =>
    simp only [hkind] at h
    cases h
    obtain ⟨c, -, rfl⟩ := Option.map_eq_some_iff.mp he
    rfl
  | undeclared code =>
    simp only [hkind] at h
    cases h

/-- Only calls of kinds that are not declared have no resolution. -/
theorem kind_of_error {call : Call} {code : Int} (h : p.resolve site call = .error code) :
    call.kind = .undeclared code := by
  unfold Program.resolve at h
  cases hkind : call.kind with
  | static | special =>
    simp only [hkind] at h
    split at h <;> cases h
  | virtual | interface =>
    simp only [hkind] at h
    cases h
  | undeclared n =>
    simp only [hkind] at h
    rw [Except.error.inj h]

/-- The computation ends in a sound state, or with the error of a reached call site. -/
def Ends (p : Program) (c : Logged AnalysisError State) : Prop :=
  (∃ t, c.Yields (.ok t) ∧ Sound p t) ∨ ∃ e, c.Yields (.error (.dispatch e)) ∧ ReachedError p e

/-- A call site of a reached method is processed, or its error is reported. -/
theorem processSite_ends (hkinds : DeclaredKinds p) (hs : Sound p s) (hm : Reached p m)
    (hsite : site ∈ p.sitesIn m) : Ends p (processSite p false site s) := by
  unfold processSite
  cases hcall : p.callAt? site with
  | none => exact Or.inl ⟨s, .pure s, hs⟩
  | some call =>
    have hsame := resolveSite_eq hcall
    cases hres : p.resolve site call with
    | error code => exact absurd (kind_of_error hres) (hkinds site call hcall code)
    | ok r =>
      simp only [hres]
      cases herr : r.error with
      | some e =>
        refine Or.inr ⟨e, (Logged.Yields.throw _).bind_error, m, site, r, hm, hsite, hsame.trans hres, herr, ?_⟩
        exact site_of_error hres herr
      | none =>
        refine Or.inl ⟨_, .pure _, hs.addCallees r.callees fun k hk => ?_⟩
        have hcallee : ReachedCall p ⟨call.kind, site, k⟩ :=
          ⟨m, call, r.callees, hm, hsite, hcall, rfl, ⟨r, hsame.trans hres, herr, rfl⟩, hk⟩
        exact ⟨hcallee, hcallee.callee⟩

/-- The call sites of a reached method are processed one after another, up to the first error. -/
theorem processSites_ends (hkinds : DeclaredKinds p) (sites : List Site) (hs : Sound p s) (hm : Reached p m)
    (hsites : ∀ site ∈ sites, site ∈ p.sitesIn m) :
    Ends p (sites.foldlM (fun s site => processSite p false site s) s) := by
  induction sites generalizing s with
  | nil => exact Or.inl ⟨s, .pure s, hs⟩
  | cons site sites ih =>
    rw [List.foldlM_cons]
    rcases processSite_ends hkinds hs hm (hsites site List.mem_cons_self) with ⟨t, hone, ht⟩ | ⟨e, hone, he⟩
    · rcases ih ht fun k hk => hsites k (List.mem_cons_of_mem site hk) with ⟨t', hrest, ht'⟩ | ⟨e, hrest, he⟩
      · exact Or.inl ⟨t', hone.bind_ok hrest, ht'⟩
      · exact Or.inr ⟨e, hone.bind_ok hrest, he⟩
    · exact Or.inr ⟨e, hone.bind_error, he⟩

/-- After so many rounds nothing waits, or a call site of a reached method has an error; more rounds change
nothing. -/
def Settles (p : Program) (fuel : Nat) (s : State) : Prop :=
  (∃ t, (∀ n ≥ fuel, (loop p false n s).Yields (.ok t)) ∧ Sound p t ∧ Inv p false t ∧
    t.waiting.toList = []) ∨
  ∃ e, (∀ n ≥ fuel, (loop p false n s).Yields (.error (.dispatch e))) ∧ ReachedError p e

/-- What the rounds after the first one come to, all rounds come to. -/
theorem Settles.round (h : Settles p fuel s')
    (hround : ∀ n r, (loop p false n s').Yields r → (loop p false (n + 1) s).Yields r) :
    Settles p (fuel + 1) s := by
  have hmore : ∀ {r}, (∀ n ≥ fuel, (loop p false n s').Yields r) →
      ∀ n ≥ fuel + 1, (loop p false n s).Yields r := by
    intro r hyields n hn
    obtain ⟨n, rfl⟩ : ∃ k, n = k + 1 := ⟨n - 1, by omega⟩
    exact hround n r (hyields n (by omega))
  rcases h with ⟨t, hyields, ht⟩ | ⟨e, hyields, he⟩
  · exact Or.inl ⟨t, hmore hyields, ht⟩
  · exact Or.inr ⟨e, hmore hyields, he⟩

/-- The load bounds the rounds. -/
theorem loop_spec (hkinds : DeclaredKinds p) (hinv : Inv p false s) (hs : Sound p s) (hfuel : load p s < fuel) :
    Settles p fuel s := by
  induction fuel generalizing s with
  | zero => exact absurd hfuel (Nat.not_lt_zero _)
  | succ fuel ih =>
    cases hpop : s.waiting.pop? with
    | none =>
      refine Or.inl ⟨s, fun n hn => ?_, hs, hinv, (Queue.pop?_eq_none_iff _).mp hpop⟩
      obtain ⟨n, rfl⟩ : ∃ k, n = k + 1 := ⟨n - 1, by omega⟩
      rw [loop]
      simp only [hpop]
      exact .pure s
    | some q =>
      obtain ⟨m, w⟩ := q
      have hwaiting := Queue.toList_pop? _ _ _ hpop
      have hm : Reached p m := hs.waiting m (hwaiting ▸ List.mem_cons_self)
      have hw : ∀ k ∈ w.toList, Reached p k := fun k hk => hs.waiting k (hwaiting ▸ List.mem_cons_of_mem m hk)
      by_cases hold : m ∈ s.graph.reachable
      · obtain ⟨hinv', hless⟩ := hinv.skip hpop hold
        have hs' : Sound p { graph := s.graph, waiting := w } := ⟨hs.built, hs.reachable, hw, hs.edges⟩
        refine (ih hinv' hs' (by omega)).round fun n r hr => ?_
        rw [loop_skip hinv.consistent hpop hold]
        exact hr
      · rcases processSites_ends hkinds (p.sitesIn m) (hs.addReachable hm hw) hm fun _ h => h with
          ⟨t, hsites, ht⟩ | ⟨e, hsites, he⟩
        · obtain ⟨hinv', hless⟩ := hinv.visit hpop hold hsites.gives
          refine (ih hinv' ht (by omega)).round fun n r hr => ?_
          rw [loop_visit hinv.consistent hpop hold]
          exact (Logged.Yields.say _ _).bind_ok (hsites.bind_ok hr)
        · refine Or.inr ⟨e, fun n hn => ?_, he⟩
          obtain ⟨n, rfl⟩ : ∃ k, n = k + 1 := ⟨n - 1, by omega⟩
          rw [loop_visit hinv.consistent hpop hold]
          exact (Logged.Yields.say _ _).bind_ok hsites.bind_error

/-! ## The whole analysis -/

/-- The number of rounds that the analysis takes at most. -/
def rounds (p : Program) : Nat := p.entries.length + numSites p * p.classes.size + 1

theorem settles_start (hkinds : DeclaredKinds p) : Settles p (rounds p) (start p) :=
  loop_spec hkinds (inv_start p false) (within_start fun _ hm => .entry hm) (by rw [load_start]; exact Nat.lt_succ_self _)

/-- The outcome of the analysis is that of its rounds. -/
theorem analyze_yields {ignore : Bool} (hentries : p.entries ≠ []) {r : Except AnalysisError State}
    (h : (loop p ignore (rounds p) (start p)).Yields r) : (analyze p ignore).Yields (r.map (·.graph)) := by
  unfold analyze
  simp only [List.isEmpty_iff, hentries, if_false]
  cases r with
  | ok s => exact h.bind_ok ((Logged.Yields.say _ _).bind_ok (.pure _))
  | error e => exact h.bind_error

/-- A graph that is closed under resolved calls has all methods that are reached. -/
theorem HasCallees.mem_reachable {g : MethodCallGraph} (h : HasCallees p g) (hm : Reached p m) :
    m ∈ g.reachable := by
  induction hm with
  | entry hm => exact h.entries _ hm
  | @callee m k site callees _ hsite hresolved hk ih =>
    obtain ⟨r, hr, -, rfl⟩ := hresolved
    cases hcall : p.callAt? site with
    | none =>
      rw [Program.resolveSite, hcall] at hr
      obtain rfl := Except.ok.inj hr
      cases hk
    | some call =>
      obtain ⟨r', hr', -, hall⟩ := h.calls m ih site hsite call hcall
      rw [resolveSite_eq hcall, hr'] at hr
      obtain rfl := Except.ok.inj hr
      exact (hall k hk).2

/-- It has all edges of their call sites, in a sound state with the right kinds. -/
theorem HasCallees.mem_edges (h : HasCallees p s.graph) (hs : Sound p s) {e : CallEdge Site MethodId} :
    e ∈ s.graph.edges ↔ ReachedCall p e := by
  refine ⟨hs.edges e, ?_⟩
  rintro ⟨m, call, callees, hm, hsite, hcall, hkind, ⟨r, hr, -, rfl⟩, hcallee⟩
  obtain ⟨r', hr', -, hall⟩ := h.calls m (h.mem_reachable hm) e.site hsite call hcall
  rw [resolveSite_eq hcall, hr'] at hr
  obtain rfl := Except.ok.inj hr
  obtain ⟨e', he', hsite', hcallee'⟩ := (hall e.callee hcallee).1
  -- the edge that is there has the kind of the call as well
  obtain ⟨-, call', -, -, -, hcall', hkind', -⟩ := hs.edges e' he'
  rw [hsite', hcall] at hcall'
  obtain rfl := Option.some.inj hcall'
  obtain rfl : e' = e := by
    cases e
    cases e'
    simp_all
  exact he'

/-- A closed graph has no unresolved call. -/
theorem HasCallees.resolved {g : MethodCallGraph} (h : HasCallees p g) (hm : Reached p m)
    (hsite : site ∈ p.sitesIn m) : ∃ callees, ResolvedTo p site callees := by
  cases hcall : p.callAt? site with
  | none => exact ⟨[], _, by rw [Program.resolveSite, hcall], rfl, rfl⟩
  | some call =>
    obtain ⟨r, hr, herr, -⟩ := h.calls m (h.mem_reachable hm) site hsite call hcall
    exact ⟨r.callees, r, (resolveSite_eq hcall).trans hr, herr, rfl⟩

/-- An error of a reached call site is one of a call that is not resolved. -/
theorem ReachedError.not_resolved {e : DispatchError} (h : ReachedError p e) :
    ¬ ∀ m, Reached p m → ∀ site ∈ p.sitesIn m, ∃ callees, ResolvedTo p site callees := by
  obtain ⟨m, site, r, hm, hsite, hr, herr, -⟩ := h
  intro hall
  obtain ⟨_, r', hr', hnone, -⟩ := hall m hm site hsite
  obtain rfl := Except.ok.inj (hr.symm.trans hr')
  cases herr.symm.trans hnone

/-- A call graph has only methods that are reached, and only their calls. -/
theorem reached_of_analyze {g : MethodCallGraph} (hkinds : DeclaredKinds p)
    (h : (analyze p false).start.1 = .ok g) :
    (∀ m ∈ g.reachable, Reached p m) ∧ ∀ e ∈ g.edges, ReachedCall p e := by
  obtain ⟨hentries, -⟩ := analyze_hasCallees h
  rcases settles_start hkinds with ⟨s, hyields, hs, -, -⟩ | ⟨e, hyields, -⟩
  · have hresult := (analyze_yields hentries (hyields _ (Nat.le_refl _))).start
    obtain rfl := Except.ok.inj (hresult.symm.trans h)
    exact ⟨hs.reachable, hs.edges⟩
  · have hresult := (analyze_yields hentries (hyields _ (Nat.le_refl _))).start
    cases hresult.symm.trans h

/-- The analysis of the class hierarchy ends, and has a call graph exactly when all calls of reached methods
are resolved. The graph has the reached methods and their resolved calls, each once. Otherwise there is the
error of a call site of a reached method. -/
theorem analyze_exact_closure (hentries : p.entries ≠ []) (hkinds : DeclaredKinds p) :
    (∃ r, (∀ n ≥ rounds p, (loop p false n (start p)).Yields r) ∧ ∀ s, r = .ok s → s.waiting.toList = []) ∧
    ((∃ g, (analyze p false).start.1 = .ok g) ↔
      ∀ m, Reached p m → ∀ site ∈ p.sitesIn m, ∃ callees, ResolvedTo p site callees) ∧
    (∀ g, (analyze p false).start.1 = .ok g →
      (∀ m, m ∈ g.reachable ↔ Reached p m) ∧ g.reachable.toList.Nodup ∧
      (∀ e, e ∈ g.edges ↔ ReachedCall p e) ∧ (g.edges.toList.map fun e => (e.site, e.callee)).Nodup) ∧
    ∀ error, (analyze p false).start.1 = .error error → ∃ e, error = .dispatch e ∧ ReachedError p e := by
  rcases settles_start hkinds with ⟨s, hyields, hs, -, hdone⟩ | ⟨e, hyields, he⟩
  · have hresult : (analyze p false).start.1 = .ok s.graph :=
      (analyze_yields hentries (hyields _ (Nat.le_refl _))).start
    obtain ⟨-, hcalls⟩ := analyze_hasCallees hresult
    refine ⟨⟨_, hyields, fun t ht => Except.ok.inj ht ▸ hdone⟩,
      ⟨fun _ m hm site hsite => hcalls.resolved hm hsite, fun _ => ⟨_, hresult⟩⟩, fun g hg => ?_,
      fun error herror => by cases hresult.symm.trans herror⟩
    obtain rfl := Except.ok.inj (hresult.symm.trans hg)
    exact ⟨fun m => ⟨hs.reachable m, hcalls.mem_reachable⟩, hs.built.nodup_reachable,
      fun e => hcalls.mem_edges hs, hs.built.nodup_edges⟩
  · have hresult : (analyze p false).start.1 = .error (.dispatch e) :=
      (analyze_yields hentries (hyields _ (Nat.le_refl _))).start
    refine ⟨⟨_, hyields, fun t ht => by cases ht⟩, ⟨?_, fun hall => absurd hall he.not_resolved⟩,
      fun g hg => (by cases hresult.symm.trans hg),
      fun error herror => ⟨e, (Except.error.inj (hresult.symm.trans herror)).symm, he⟩⟩
    rintro ⟨g, hg⟩
    cases hresult.symm.trans hg

/-- `main` calls `ping`, which calls `pong` twice and is called by it; `lost`, which nothing calls, calls a
method that no class has. -/
def pingPong : Program where
  classes := #[
    { name := "Main", super := none, isAbstract := false, isInterface := false, methods := #[0, 1, 2, 3] }]
  fields := #[]
  vars := #[]
  methods := #[method "main" ["ping"], method "ping" ["pong", "pong"], method "pong" ["ping"],
    method "lost" ["gone"]]
  entries := [0]
where
  method (name : String) (calls : List String) : Method :=
    { name, cls := 0, isStatic := true, isAbstract := false, subsig := name, returns := none,
      receiver := none, params := #[], vars := #[], pos := none,
      body := (calls.map fun c =>
        { stmt := .invoke none ⟨.static, ⟨0, c, c⟩, none, []⟩, pos := none }).toArray }

theorem analyze_exact_closure_pingPong :
    (∃ g, (analyze pingPong false).start.1 = .ok g ∧ 2 ∈ g.reachable ∧ ¬ 3 ∈ g.reachable) ∧
    ∃ e, (analyze (pingPong.withEntries [3]) false).start.1 = .error (.dispatch e) := by
  have hkinds : ∀ entries, DeclaredKinds (pingPong.withEntries entries) := by
    have hstatic : ∀ x ∈ pingPong.statements, (x.2.call?.all (·.kind = .static)) = true := by decide
    intro entries site call hcall code
    obtain ⟨x, hs⟩ := Program.stmt?_of_callAt? hcall
    have hkind := hstatic _ (Program.mem_statements hs)
    simp only [Stmt.call?, Option.all_some, decide_eq_true_eq] at hkind
    rw [hkind]
    exact nofun
  -- `main`, `ping` and `pong` only call each other
  have hcalls : ∀ m < 3, ∀ site ∈ pingPong.sitesIn m, ∃ callees, ResolvedTo pingPong site callees ∧
      ∀ k ∈ callees, k < 3 := by
    intro m hm site hsite
    have hall : ∀ m < 3, ∀ site ∈ pingPong.sitesIn m, ((pingPong.resolveSite site).toOption.any
        fun r => r.error.isNone && r.callees.all (· < 3)) = true := by decide
    have hsite := hall m hm site hsite
    cases hr : pingPong.resolveSite site with
    | error code =>
      rw [hr] at hsite
      cases hsite
    | ok r =>
      rw [hr] at hsite
      simp only [Except.toOption, Option.any_some, Bool.and_eq_true, Option.isNone_iff_eq_none, List.all_eq_true,
        decide_eq_true_eq] at hsite
      exact ⟨r.callees, ⟨r, hr, hsite.1, rfl⟩, hsite.2⟩
  have hreached : ∀ m, Reached pingPong m → m < 3 := by
    intro m hm
    induction hm with
    | entry hm =>
      obtain rfl := List.mem_singleton.mp hm
      decide
    | callee _ hsite hresolved hk ih =>
      obtain ⟨_, ⟨r, hr, -, rfl⟩, hall⟩ := hcalls _ ih _ hsite
      obtain ⟨r', hr', -, rfl⟩ := hresolved
      obtain rfl := Except.ok.inj (hr.symm.trans hr')
      exact hall _ hk
  have hping : ResolvedTo pingPong ⟨0, 0⟩ [1] := ⟨_, rfl, rfl, rfl⟩
  have hpong : ResolvedTo pingPong ⟨1, 0⟩ [2] := ⟨_, rfl, rfl, rfl⟩
  have hmain : Reached pingPong 0 := .entry List.mem_cons_self
  have hreach : Reached pingPong 2 :=
    (hmain.callee (by decide) hping List.mem_cons_self).callee (by decide) hpong List.mem_cons_self
  constructor
  · obtain ⟨-, hiff, hgraph, -⟩ := analyze_exact_closure (p := pingPong) (by decide) (hkinds [0])
    obtain ⟨g, hg⟩ := hiff.mpr fun m hm site hsite =>
      (hcalls m (hreached m hm) site hsite).imp fun _ h => h.1
    have hmem := (hgraph g hg).1
    exact ⟨g, hg, (hmem 2).mpr hreach, fun h => absurd (hreached 3 ((hmem 3).mp h)) (by decide)⟩
  · obtain ⟨-, hiff, -, herror⟩ := analyze_exact_closure (p := pingPong.withEntries [3]) (by decide) (hkinds [3])
    cases hresult : (analyze (pingPong.withEntries [3]) false).start.1 with
    | error error =>
      obtain ⟨e, rfl, -⟩ := herror error hresult
      exact ⟨e, rfl⟩
    | ok g =>
      obtain ⟨_, r, hr, herr, -⟩ := hiff.mp ⟨g, hresult⟩ 3 (.entry List.mem_cons_self) ⟨3, 0⟩ (by decide)
      have hfails : ((pingPong.withEntries [3]).resolveSite ⟨3, 0⟩).toOption.any (·.error.isSome) = true := by decide
      rw [hr] at hfails
      simp [Except.toOption, herr] at hfails

end WholeProgram.ClassHierarchyAnalysis

/-! # Call graphs that ignore unresolved calls -/

namespace WholeProgram.ClassHierarchyAnalysis

variable {p : Program} {s : State} {site : Site} {m k : MethodId}

/-- The callee is found at the call site, whether or not there is an error after it. -/
def FoundAt (p : Program) (site : Site) (k : MethodId) : Prop :=
  ∃ r, p.resolveSite site = .ok r ∧ k ∈ r.callees

/-- The methods that the entry methods reach over callees that are found. -/
inductive Found (p : Program) : MethodId → Prop
  | entry {m : MethodId} : m ∈ p.entries → Found p m
  | callee {m k : MethodId} {site : Site} : Found p m → site ∈ p.sitesIn m → FoundAt p site k → Found p k

/-- The site is one of a method that is found, and the callee is found there. -/
def FoundCall (p : Program) (site : Site) (k : MethodId) : Prop :=
  ∃ m, Found p m ∧ site ∈ p.sitesIn m ∧ FoundAt p site k

/-- A method that is found has a call of a kind that is not declared. -/
def FoundUndeclared (p : Program) : Prop :=
  ∃ m site call code, Found p m ∧ site ∈ p.sitesIn m ∧ p.callAt? site = some call ∧
    call.kind = .undeclared code

theorem FoundCall.callee (h : FoundCall p site k) : Found p k := by
  obtain ⟨m, hm, hsite, hk⟩ := h
  exact hm.callee hsite hk

/-! ## What the rounds find -/

/-- The methods and the edges of a state are found. -/
abbrev OnlyFound (p : Program) (s : State) : Prop :=
  Within (Found p) (fun e => FoundCall p e.site e.callee) s

/-- The computation ends in a state in which all is found, or in the error of a kind of calls. -/
def EndsIgnoring (p : Program) (c : Logged AnalysisError State) : Prop :=
  (∃ t, c.Yields (.ok t) ∧ OnlyFound p t) ∨ FoundUndeclared p ∧ ∃ e, c.Yields (.error e)

theorem EndsIgnoring.bind {c : Logged AnalysisError State} {f : State → Logged AnalysisError State}
    (hc : EndsIgnoring p c) (hf : ∀ t, OnlyFound p t → EndsIgnoring p (f t)) : EndsIgnoring p (c >>= f) := by
  rcases hc with ⟨t, hone, ht⟩ | ⟨hkind, e, hone⟩
  · rcases hf t ht with ⟨t', hrest, ht'⟩ | ⟨hkind, e, hrest⟩
    · exact Or.inl ⟨t', hone.bind_ok hrest, ht'⟩
    · exact Or.inr ⟨hkind, e, hone.bind_ok hrest⟩
  · exact Or.inr ⟨hkind, e, hone.bind_error⟩

theorem processSite_ignoring (hs : OnlyFound p s) (hm : Found p m) (hsite : site ∈ p.sitesIn m) :
    EndsIgnoring p (processSite p true site s) := by
  unfold processSite
  cases hcall : p.callAt? site with
  | none => exact Or.inl ⟨s, .pure s, hs⟩
  | some call =>
    cases hres : p.resolve site call with
    | error code =>
      simp only [hres]
      exact Or.inr ⟨⟨m, site, call, code, hm, hsite, hcall, kind_of_error hres⟩, _, .throw _⟩
    | ok r =>
      have hfound : OnlyFound p (addCallees site call.kind r.callees s) := by
        refine hs.addCallees r.callees fun k hk => ?_
        have hcallee : FoundCall p site k := ⟨m, hm, hsite, r, (resolveSite_eq hcall).trans hres, hk⟩
        exact ⟨hcallee, hcallee.callee⟩
      refine Or.inl ⟨_, ?_, hfound⟩
      simp only [hres]
      -- an error is reported and forgotten
      cases r.error with
      | some e => exact (Logged.Yields.say _ _).bind_ok (.pure _)
      | none => exact .pure _

theorem processSites_ignoring (sites : List Site) (hs : OnlyFound p s) (hm : Found p m)
    (hsites : ∀ site ∈ sites, site ∈ p.sitesIn m) :
    EndsIgnoring p (sites.foldlM (fun s site => processSite p true site s) s) := by
  induction sites generalizing s with
  | nil => exact Or.inl ⟨s, .pure s, hs⟩
  | cons site sites ih =>
    rw [List.foldlM_cons]
    exact (processSite_ignoring hs hm (hsites site List.mem_cons_self)).bind fun t ht =>
      ih ht fun k hk => hsites k (List.mem_cons_of_mem site hk)

theorem loop_ignoring (fuel : Nat) (hs : OnlyFound p s) : EndsIgnoring p (loop p true fuel s) := by
  induction fuel generalizing s with
  | zero => exact Or.inl ⟨s, .pure s, hs⟩
  | succ fuel ih =>
    cases hpop : s.waiting.pop? with
    | none =>
      rw [loop]
      simp only [hpop]
      exact Or.inl ⟨s, .pure s, hs⟩
    | some q =>
      obtain ⟨m, w⟩ := q
      have hwaiting := Queue.toList_pop? _ _ _ hpop
      have hm : Found p m := hs.waiting m (hwaiting ▸ List.mem_cons_self)
      have hw : ∀ k ∈ w.toList, Found p k := fun k hk => hs.waiting k (hwaiting ▸ List.mem_cons_of_mem m hk)
      by_cases hold : m ∈ s.graph.reachable
      · rw [loop_skip hs.built.consistent hpop hold]
        exact ih ⟨hs.built, hs.reachable, hw, hs.edges⟩
      · rw [loop_visit hs.built.consistent hpop hold]
        rcases (processSites_ignoring (p.sitesIn m) (hs.addReachable hm hw) hm fun _ h => h).bind
            fun t ht => ih ht with ⟨t, hrest, ht⟩ | ⟨hkind, e, hrest⟩
        · exact Or.inl ⟨t, (Logged.Yields.say _ _).bind_ok hrest, ht⟩
        · exact Or.inr ⟨hkind, e, (Logged.Yields.say _ _).bind_ok hrest⟩

/-! ## The whole analysis -/

/-- A graph that is closed under the callees that are found has all methods that are found. -/
theorem mem_reachable_of_found {g : MethodCallGraph} (h : (analyze p true).start.1 = .ok g)
    (hm : Found p m) : m ∈ g.reachable := by
  obtain ⟨-, hentries, hcalls⟩ := analyze_closed h
  induction hm with
  | entry hm => exact hentries _ hm
  | @callee m k site _ hsite hk ih =>
    obtain ⟨call, hcall⟩ := Option.isSome_iff_exists.mp (Program.mem_sitesIn.mp hsite).2
    obtain ⟨r, hr, -, hall⟩ := hcalls m ih site hsite call hcall
    obtain ⟨r', hr', hk⟩ := hk
    rw [resolveSite_eq hcall, hr] at hr'
    obtain rfl := Except.ok.inj hr'
    exact (hall k hk).2

theorem hasEdge_of_foundCall {g : MethodCallGraph} (h : (analyze p true).start.1 = .ok g)
    (hcallee : FoundCall p site k) : g.HasEdge site k := by
  obtain ⟨m, hm, hsite, r', hr', hk⟩ := hcallee
  obtain ⟨-, -, hcalls⟩ := analyze_closed h
  obtain ⟨call, hcall⟩ := Option.isSome_iff_exists.mp (Program.mem_sitesIn.mp hsite).2
  obtain ⟨r, hr, -, hall⟩ := hcalls m (mem_reachable_of_found h hm) site hsite call hcall
  rw [resolveSite_eq hcall, hr] at hr'
  obtain rfl := Except.ok.inj hr'
  exact (hall k hk).1

/-- With an entry method, there is a call graph where all kinds of calls are declared, of the methods that
are found; and a call graph has these methods, and the calls that are found. -/
theorem analyze_ignoring (hentries : p.entries ≠ []) :
    ((∃ g, (analyze p true).start.1 = .ok g) ∨ FoundUndeclared p) ∧
    ∀ g, (analyze p true).start.1 = .ok g →
      (∀ m, m ∈ g.reachable ↔ Found p m) ∧ ∀ site m, g.HasEdge site m ↔ FoundCall p site m := by
  rcases loop_ignoring (rounds p) (within_start (p := p) fun _ hm => .entry hm) with
    ⟨t, hyields, ht⟩ | ⟨hkind, e, hyields⟩
  · have hresult : (analyze p true).start.1 = .ok t.graph := (analyze_yields hentries hyields).start
    refine ⟨Or.inl ⟨_, hresult⟩, fun g hg => ?_⟩
    obtain rfl := Except.ok.inj (hresult.symm.trans hg)
    refine ⟨fun m => ⟨ht.reachable m, mem_reachable_of_found hg⟩,
      fun site m => ⟨?_, hasEdge_of_foundCall hg⟩⟩
    rintro ⟨e, he, rfl, rfl⟩
    exact ht.edges e he
  · have hresult : (analyze p true).start.1 = .error e := (analyze_yields hentries hyields).start
    exact ⟨Or.inr hkind, fun g hg => by cases hresult.symm.trans hg⟩

/-- Where all kinds of calls are declared, a program with an entry method has a call graph. -/
theorem analyze_ignoring_succeeds (hentries : p.entries ≠ []) (hkinds : DeclaredKinds p) :
    ∃ g, (analyze p true).start.1 = .ok g := by
  refine (analyze_ignoring hentries).1.resolve_right ?_
  rintro ⟨_, site, call, code, -, -, hcall, hkind⟩
  exact hkinds site call hcall code hkind

/-- A call graph has no calls of kinds that are not declared. -/
theorem not_foundUndeclared {g : MethodCallGraph} (h : (analyze p true).start.1 = .ok g) :
    ¬ FoundUndeclared p := by
  rintro ⟨m, site, call, code, hm, hsite, hcall, hkind⟩
  obtain ⟨-, -, hcalls⟩ := analyze_closed h
  obtain ⟨r, hr, -⟩ := hcalls m (mem_reachable_of_found h hm) site hsite call hcall
  simp only [Program.resolve, hkind] at hr
  cases hr

end WholeProgram.ClassHierarchyAnalysis
