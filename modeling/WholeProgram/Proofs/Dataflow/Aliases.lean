import WholeProgram.Dataflow.Aliases
import WholeProgram.Proofs.Dataflow.Interprocedural
import WholeProgram.Proofs.PointsTo.Exact

/-!
# The equations of alias-aware constant propagation

A load into a variable that holds integers finds the values that are stored into its aliases anywhere in
the supergraph, and what they are depends on the facts before these stores. A store passes on what it is
given, so its output changes when its input does, and that wakes the loads from its aliases.

* `Finds`, `Equations` — which values a load finds, and what the facts are to satisfy;
* `meets_iff`, `mem_storesInto`, `mem_loadsFrom` — two accesses meet where their places overlap; the
  stores into the aliases of a load are those whose loads the load is among;
* `loadedValue_le_iff` — the value of a load is the least above what the load finds;
* `lawful` — a load depends on stores, and these wake it, so that the solver finds the least solution;
* `leastSolution_of_ok`, `analyze_ends` — it does for every pointer analysis, and without a limit it ends.
-/

namespace WholeProgram.Aliases

/-- The variable that holds integers into which a statement loads from a field or an array. -/
def intLoad? (p : Program) : Stmt Nat → Option VarId
  | .loadField x _ _ | .loadArray x _ _ => if p.holdsInt x then some x else none
  | _ => none

/-- The values that a load finds, where `before` are the facts before the nodes and `here` is the one
before the load: those stored into the same static field, into the same field of a common object, or into
a common array at an index that may be the same. -/
inductive Finds (p : Program) (g : Supergraph) (pointsTo : VarId → IdSet) (before : Node → Fact)
    (here : Fact) : Stmt Nat → Value → Prop
  | static {x y : VarId} {f : FieldId} {n : Node} : n ∈ g.nodes → p.stmtAt n = .storeField none f y →
      Finds p g pointsTo before here (.loadField x none f) ((before n).get y)
  | field {x y b c : VarId} {f : FieldId} {n : Node} {o : Nat} : n ∈ g.nodes →
      p.stmtAt n = .storeField (some c) f y → o ∈ pointsTo b → o ∈ pointsTo c →
      Finds p g pointsTo before here (.loadField x (some b) f) ((before n).get y)
  | array {x y b c i j : VarId} {n : Node} {o : Nat} : n ∈ g.nodes →
      p.stmtAt n = .storeArray c j y → o ∈ pointsTo b → o ∈ pointsTo c →
      indexMayAlias (here.get i) ((before n).get j) = true →
      Finds p g pointsTo before here (.loadArray x b i) ((before n).get y)

/-- The facts of alias-aware constant propagation: after a load into a variable that holds integers, its
value is the join of what the load finds and everything else is as before; other nodes have the effect
that they have without aliases. -/
structure Equations (p : Program) (g : Supergraph) (pointsTo : VarId → IdSet) (a : Assignment Fact) : Prop
    extends Interprocedural.Flows p g a where
  load : ∀ n ∈ g.nodes, ∀ x, intLoad? p (p.stmtAt n) = some x →
    (∀ v, v ≠ x → (a.after (g.number n)).get v = (a.before (g.number n)).get v) ∧
    IsLUB {d | Finds p g pointsTo (fun k => a.before (g.number k)) (a.before (g.number n)) (p.stmtAt n) d}
      ((a.after (g.number n)).get x)
  after : ∀ n ∈ g.nodes, Interprocedural.isBoundary g n = false → intLoad? p (p.stmtAt n) = none →
    a.after (g.number n) = Interprocedural.transfer p (p.stmtAt n) (a.before (g.number n))

variable {p : Program} {g : Supergraph} {pts : VarId → IdSet}

theorem intLoad?_spec {s : Stmt Nat} {x : VarId} (h : intLoad? p s = some x) :
    s.defined? = some x ∧ p.holdsInt x = true := by
  unfold intLoad? at h
  split at h
  · obtain ⟨hx, heq⟩ := Option.ite_none_right_eq_some.mp h
    cases heq
    exact ⟨rfl, hx⟩
  · obtain ⟨hx, heq⟩ := Option.ite_none_right_eq_some.mp h
    cases heq
    exact ⟨rfl, hx⟩
  · cases h

theorem intLoad?_of_load {s : Stmt Nat} {place : Place} {x : VarId} (hplace : loadPlace? s = some place)
    (hx : s.defined? = some x) : intLoad? p s = if p.holdsInt x then some x else none := by
  unfold loadPlace? at hplace
  split at hplace
  · cases hx
    rfl
  · cases hx
    rfl
  · cases hx
    rfl
  · cases hplace

theorem intLoad?_eq_none {s : Stmt Nat}
    (h : ∀ place x, loadPlace? s = some place → s.defined? = some x → False) : intLoad? p s = none := by
  unfold intLoad?
  split
  · rename_i x b f
    cases b <;> exact (h _ x rfl rfl).elim
  · exact (h _ _ rfl rfl).elim
  · rfl

/-! ## Places that overlap -/

/-- Accesses to these places may be to one cell: the same static field, or a common object. -/
inductive Meets (pts : VarId → IdSet) : Place → Place → Prop
  | static (f : FieldId) : Meets pts (.static f) (.static f)
  | field {b c : VarId} {f : FieldId} {o : Nat} : o ∈ pts b → o ∈ pts c →
      Meets pts (.field b f) (.field c f)
  | array {b c : VarId} {o : Nat} : o ∈ pts b → o ∈ pts c → Meets pts (.array b) (.array c)

theorem Meets.symm {a b : Place} (h : Meets pts a b) : Meets pts b a := by
  cases h with
  | static f => exact .static f
  | field hb hc => exact .field hc hb
  | array hb hc => exact .array hc hb

/-- There are as many ways as the list says in which two places are one. -/
theorem meets_iff {a b : Place} : Meets pts a b ↔ ∃ o, o ∈ overlap pts a b := by
  constructor
  · intro h
    cases h with
    | static f => exact ⟨0, by simp [overlap]⟩
    | @field _ _ _ o hb hc => exact ⟨o, by simp [overlap, IdSet.mem_toList, IdSet.mem_inter, hb, hc]⟩
    | @array _ _ o hb hc => exact ⟨o, by simp [overlap, IdSet.mem_toList, IdSet.mem_inter, hb, hc]⟩
  · rintro ⟨o, ho⟩
    unfold overlap at ho
    split at ho
    · split at ho
      · rename_i h
        exact h ▸ .static _
      · cases ho
    · split at ho
      · rename_i h
        obtain ⟨hb, hc⟩ := (IdSet.mem_inter _ _ _).mp ((IdSet.mem_toList _ _).mp ho)
        exact h ▸ .field hb hc
      · cases ho
    · obtain ⟨hb, hc⟩ := (IdSet.mem_inter _ _ _).mp ((IdSet.mem_toList _ _).mp ho)
      exact .array hb hc
    · cases ho

/-! ## Accesses -/

theorem mem_accesses {place? : Stmt Nat → Option Place} {stmt : Nat → Stmt Nat} {size : Nat}
    {s : Access} :
    s ∈ ((List.range size).map fun i => (i, stmt i)).filterMap (fun a =>
      (place? a.2).map fun place => { node := a.1, stmt := a.2, place }) ↔
    s.node < size ∧ s.stmt = stmt s.node ∧ place? s.stmt = some s.place := by
  obtain ⟨i, t, place⟩ := s
  simp only [List.filterMap_map, List.mem_filterMap, List.mem_range, Function.comp_apply,
    Option.map_eq_some_iff, Access.mk.injEq]
  constructor
  · rintro ⟨i, hi, place, hplace, rfl, rfl, rfl⟩
    exact ⟨hi, rfl, hplace⟩
  · rintro ⟨hi, rfl, hplace⟩
    exact ⟨i, hi, place, hplace, rfl, rfl, rfl⟩

theorem mem_loads {s : Access} : s ∈ (accesses p g pts).loads ↔
    s.node < g.nodes.size ∧ s.stmt = p.stmtAt (g.nodeAt s.node) ∧ loadPlace? s.stmt = some s.place :=
  mem_accesses

theorem mem_stores {s : Access} : s ∈ (accesses p g pts).stores ↔
    s.node < g.nodes.size ∧ s.stmt = p.stmtAt (g.nodeAt s.node) ∧ storePlace? s.stmt = some s.place :=
  mem_accesses

theorem mem_storesInto {place : Place} {s : Access} :
    s ∈ (accesses p g pts).storesInto place ↔
      s ∈ (accesses p g pts).stores ∧ Meets pts place s.place := by
  rw [Accesses.storesInto, List.mem_filter, meets_iff]
  refine and_congr_right fun _ => ?_
  show (!(overlap pts place s.place).isEmpty) = true ↔ _
  cases overlap pts place s.place <;> simp

theorem mem_loadsFrom {place : Place} {i : Nat} :
    i ∈ (accesses p g pts).loadsFrom place ↔
      ∃ s ∈ (accesses p g pts).loads, s.node = i ∧ Meets pts place s.place := by
  have hobjects : ∀ (found : List (Nat × List Nat)) (o : Nat),
      o ∈ (IdSet.ofList (found.flatMap (·.2))).toList ↔ ∃ l ∈ found, o ∈ l.2 := by
    intro found o
    rw [IdSet.mem_toList, IdSet.ofList, IdSet.mem_foldl_insert, List.mem_flatMap]
    exact or_iff_left (IdSet.not_mem_empty o)
  simp only [Accesses.loadsFrom, List.mem_flatMap, hobjects, List.mem_map, List.mem_filter,
    List.contains_iff_mem, meets_iff]
  constructor
  · rintro ⟨o, -, l, ⟨⟨s, hs, rfl⟩, ho⟩, rfl⟩
    exact ⟨s, hs, rfl, o, ho⟩
  · rintro ⟨s, hs, rfl, o, ho⟩
    exact ⟨o, ⟨_, ⟨s, hs, rfl⟩, ho⟩, _, ⟨⟨s, hs, rfl⟩, ho⟩, rfl⟩

/-! ## The value of a load -/

/-- What a store adds to the value of a load. -/
def stored (facts : Facts Fact) (load : Stmt Nat) (f : Fact) (s : Access) : Value :=
  match s.stmt, load with
  | .storeField _ _ y, _ => (facts.input s.node).get y
  | .storeArray _ j y, .loadArray _ _ i =>
    if indexMayAlias (f.get i) ((facts.input s.node).get j) then (facts.input s.node).get y else .undefined
  | _, _ => .undefined

theorem loadedValue_eq (facts : Facts Fact) (stores : List Access) (load : Stmt Nat) (f : Fact) :
    loadedValue facts stores load f =
      stores.foldl (fun v s => v ⊔ stored facts load f s) ⊥ := by
  unfold loadedValue
  show stores.foldl _ Value.undefined = stores.foldl _ Value.undefined
  congr 1
  funext v s
  have hbot : v = v ⊔ Value.undefined := (sup_bot_eq v).symm
  unfold stored
  cases s.stmt <;> cases load <;> first
    | rfl
    | exact hbot
    | (dsimp only; split <;> first | rfl | exact hbot)

/-- Two index values may be the same where some index is allowed by both. -/
theorem indexMayAlias_iff {a b : Value} :
    indexMayAlias a b = true ↔ ∃ c, .const c ≤ a ∧ .const c ≤ b := by
  constructor
  · intro h
    cases a with
    | undefined => simp [indexMayAlias] at h
    | nac =>
      cases b with
      | undefined => simp [indexMayAlias] at h
      | nac => exact ⟨0, Value.le_nac _, Value.le_nac _⟩
      | const d => exact ⟨d, Value.le_nac _, le_rfl⟩
    | const c =>
      cases b with
      | undefined => simp [indexMayAlias] at h
      | nac => exact ⟨c, le_rfl, Value.le_nac _⟩
      | const d =>
        obtain rfl : c = d := by simpa [indexMayAlias] using h
        exact ⟨c, le_rfl, le_rfl⟩
  · rintro ⟨c, ha, hb⟩
    rcases Value.const_le ha with rfl | rfl <;> rcases Value.const_le hb with rfl | rfl <;>
      simp [indexMayAlias]

theorem indexMayAlias_mono {a a' b b' : Value} (ha : a ≤ a') (hb : b ≤ b')
    (h : indexMayAlias a b = true) : indexMayAlias a' b' = true := by
  obtain ⟨c, hca, hcb⟩ := indexMayAlias_iff.mp h
  exact indexMayAlias_iff.mpr ⟨c, hca.trans ha, hcb.trans hb⟩

theorem stored_mono {facts facts' : Facts Fact} (hfacts : ∀ k, facts.input k ≤ facts'.input k)
    (load : Stmt Nat) {f f' : Fact} (hf : f ≤ f') (s : Access) :
    stored facts load f s ≤ stored facts' load f' s := by
  unfold stored
  split
  · exact hfacts _ _
  · rename_i j y _ _ i _
    by_cases h : indexMayAlias (f.get i) ((facts.input s.node).get j) = true
    · rw [if_pos h, if_pos (indexMayAlias_mono (hf i) (hfacts s.node j) h)]
      exact hfacts _ _
    · rw [if_neg h]
      exact Value.undefined_le _
  · exact le_rfl

theorem stored_congr {facts facts' : Facts Fact} {s : Access}
    (h : facts.input s.node = facts'.input s.node) (load : Stmt Nat) (f : Fact) :
    stored facts load f s = stored facts' load f s := by
  unfold stored
  rw [h]

/-! ## The system -/

/-- The stores into the aliases of each load, by node. -/
def storesTable (p : Program) (g : Supergraph) (pts : VarId → IdSet) : Array (List Access) :=
  (Array.range g.nodes.size).map fun i =>
    match loadPlace? (p.stmtAt (g.nodeAt i)) with
    | some place => (accesses p g pts).storesInto place
    | none => []

/-- The loads from the aliases of each store, by node. -/
def loadsTable (p : Program) (g : Supergraph) (pts : VarId → IdSet) : Array (List Nat) :=
  (Array.range g.nodes.size).map fun i =>
    match storePlace? (p.stmtAt (g.nodeAt i)) with
    | some place => (accesses p g pts).loadsFrom place
    | none => []

theorem mem_storesTable {i : Nat} {s : Access} :
    s ∈ (storesTable p g pts).getD i [] ↔ i < g.nodes.size ∧
      s ∈ (accesses p g pts).stores ∧
      ∃ place, loadPlace? (p.stmtAt (g.nodeAt i)) = some place ∧ Meets pts place s.place := by
  by_cases hi : i < g.nodes.size
  · simp only [storesTable, Array.getD_eq_getD_getElem?, Array.getElem?_map, Array.getElem?_range, hi,
      if_true, Option.map_some, Option.getD_some, true_and]
    cases loadPlace? (p.stmtAt (g.nodeAt i)) with
    | none => simp
    | some place => simp [mem_storesInto]
  · simp [storesTable, Array.getD_eq_getD_getElem?, hi]

theorem mem_loadsTable {i k : Nat} :
    i ∈ (loadsTable p g pts).getD k [] ↔ k < g.nodes.size ∧ ∃ place,
      storePlace? (p.stmtAt (g.nodeAt k)) = some place ∧
      ∃ s ∈ (accesses p g pts).loads, s.node = i ∧ Meets pts place s.place := by
  by_cases hk : k < g.nodes.size
  · simp only [loadsTable, Array.getD_eq_getD_getElem?, Array.getElem?_map, Array.getElem?_range, hk,
      if_true, Option.map_some, Option.getD_some, true_and]
    cases storePlace? (p.stmtAt (g.nodeAt k)) with
    | none => simp
    | some place => simp [mem_loadsFrom]
  · simp [loadsTable, Array.getD_eq_getD_getElem?, hk]

/-- The loads among which a store wakes are those that depend on it. -/
theorem mem_loadsTable_of_mem_storesTable {i : Nat} {s : Access}
    (h : s ∈ (storesTable p g pts).getD i []) : i ∈ (loadsTable p g pts).getD s.node [] := by
  obtain ⟨hi, hs, place, hplace, hmeets⟩ := mem_storesTable.mp h
  obtain ⟨hnode, hstmt, hstore⟩ := mem_stores.mp hs
  let load : Access := { node := i, stmt := p.stmtAt (g.nodeAt i), place }
  exact mem_loadsTable.mpr ⟨hnode, s.place, hstmt ▸ hstore, load, mem_loads.mpr ⟨hi, rfl, hplace⟩, rfl,
    hmeets.symm⟩

theorem dependents_eq (i : Nat) : (system p g pts).dependents i =
    (loadsTable p g pts).getD i [] ++ (Interprocedural.system p g).dependents i := rfl

theorem transfer_eq (facts : Facts Fact) (i : Nat) (f : Fact) :
    (system p g pts).transfer facts i f =
      match intLoad? p (p.stmtAt (g.nodeAt i)) with
      | some x => f.update x
          (loadedValue facts ((storesTable p g pts).getD i []) (p.stmtAt (g.nodeAt i)) f)
      | none => Interprocedural.transfer p (p.stmtAt (g.nodeAt i)) f := by
  unfold system
  dsimp only
  split
  · rename_i place x hplace hx
    rw [intLoad?_of_load hplace hx]
    split <;> rfl
  · rename_i hno
    rw [intLoad?_eq_none hno]
    rfl

/-- A store passes on what it is given. -/
theorem echoes_of_store {i : Nat} {place : Place}
    (h : storePlace? (p.stmtAt (g.nodeAt i)) = some place) : (system p g pts).Echoes i := by
  constructor
  · refine Interprocedural.isBoundary_eq_false (p := p) fun hnop => ?_
    rw [hnop] at h
    cases h
  · intro facts f
    rw [transfer_eq]
    cases hs : p.stmtAt (g.nodeAt i) with
    | storeField | storeArray => rfl
    | _ =>
      rw [hs] at h
      cases h

theorem lawful (hg : g.Indexed) : (system p g pts).Lawful where
  initial_le := (Interprocedural.lawful (p := p) hg).initial_le
  default_eq := (Interprocedural.lawful (p := p) hg).default_eq
  start_eq := (Interprocedural.lawful (p := p) hg).start_eq
  input_mono := (Interprocedural.lawful (p := p) hg).input_mono
  input_congr s t i hi h :=
    (Interprocedural.lawful (p := p) hg).input_congr s t i hi fun k hk =>
      h k fun hlt => List.mem_append_right _ (hk hlt)
  transfer_mono s t i f f' hin hf := by
    rw [transfer_eq, transfer_eq]
    split
    · refine Fact.update_mono _ hf ?_
      rw [loadedValue_eq, loadedValue_eq]
      exact foldl_sup_mono _ fun a _ => stored_mono hin _ hf a
    · exact Interprocedural.transfer_mono _ hf
  transfer_congr s t i f hi h := by
    rw [transfer_eq, transfer_eq]
    split
    · congr 1
      rw [loadedValue_eq, loadedValue_eq]
      refine foldl_sup_congr fun a ha => stored_congr ?_ _ _
      obtain ⟨-, hstore, -⟩ := mem_storesTable.mp ha
      obtain ⟨hnode, hstmt, hplace⟩ := mem_stores.mp hstore
      exact h _ hnode (List.mem_append_left _ (mem_loadsTable_of_mem_storesTable ha))
        (echoes_of_store (hstmt ▸ hplace))
    · rfl
  dependents_eq_nil i k hge hmem := by
    exfalso
    rcases List.mem_append.mp hmem with hmem | hmem
    · obtain ⟨-, -, -, s, hs, rfl, -⟩ := mem_loadsTable.mp hmem
      exact absurd (mem_loads.mp hs).1 (Nat.not_lt.mpr hge)
    · exact absurd (Interprocedural.mem_dependents hg hmem) (Nat.not_lt.mpr hge)

theorem keeps (hp : p.WellFormed) : (system p g pts).Keeps {f | Interprocedural.About p f} where
  initial_mem := (Interprocedural.keeps (g := g) hp).initial_mem
  start_mem := (Interprocedural.keeps (g := g) hp).start_mem
  input_mem := (Interprocedural.keeps (g := g) hp).input_mem
  transfer_mem s i f hf := by
    show Interprocedural.About p _
    rw [transfer_eq]
    split
    · rename_i x hx
      exact Interprocedural.About.update hf (Program.lt_of_holdsInt (intLoad?_spec hx).2) _
    · exact Interprocedural.About.transfer hf _

/-- The system halts: no fact climbs further than the values of its variables do, and a change of a fact
wakes as many nodes as the tables list. -/
theorem solve_halts (hp : p.WellFormed) (hg : g.Indexed) {limit : Int} (hlimit : limit ≤ 0) :
    (system p g pts).Halts ((system p g pts).solve limit).2 := by
  refine System.solve_halts (lawful hg) (keeps hp) (Interprocedural.ranked p) hlimit ?_
  have hloads : (loadsTable p g pts).size = g.nodes.size := by simp [loadsTable]
  have hlength : ∀ i, ((system p g pts).dependents i).length =
      ((loadsTable p g pts).getD i []).length + (g.succs (g.nodeAt i)).length := by
    intro i
    rw [dependents_eq, List.length_append]
    exact congrArg _ (List.length_map _)
  have hsum : ∑ i ∈ Finset.range g.nodes.size, ((system p g pts).dependents i).length ≤
      (loadsTable p g pts).foldl (fun n ls => n + ls.length) 0 +
        g.outs.foldl (fun n es => n + es.length) 0 := by
    simp only [hlength, Finset.sum_add_distrib]
    rw [← sum_length_getD, hloads]
    exact Nat.add_le_add_left hg.sum_succs_le _
  have hvisits : (system p g pts).visits =
      g.nodes.size + (2 * p.vars.size + 1) * g.outs.foldl (fun n es => n + es.length) 0 + 1 +
        (2 * p.vars.size + 1) * (loadsTable p g pts).foldl (fun n ls => n + ls.length) 0 := rfl
  have hmul := Nat.mul_le_mul (Nat.le_succ (2 * p.vars.size)) hsum
  rw [hvisits]
  rw [Nat.succ_eq_add_one, Nat.mul_add] at hmul
  have hsize : (system p g pts).size = g.nodes.size := rfl
  rw [hsize]
  omega

/-! ## Solutions -/

/-- The three ways in which a load and a store meet. -/
theorem meets_cases {l t : Stmt Nat} {a b : Place} (hl : loadPlace? l = some a)
    (ht : storePlace? t = some b) (h : Meets pts a b) :
    (∃ x f y, l = .loadField x none f ∧ t = .storeField none f y) ∨
    (∃ x b f c y o, l = .loadField x (some b) f ∧ t = .storeField (some c) f y ∧
      o ∈ pts b ∧ o ∈ pts c) ∨
    ∃ x b i c j y o, l = .loadArray x b i ∧ t = .storeArray c j y ∧ o ∈ pts b ∧ o ∈ pts c := by
  unfold loadPlace? at hl
  unfold storePlace? at ht
  cases h with
  | static f =>
    split at hl <;> cases hl
    split at ht <;> cases ht
    exact Or.inl ⟨_, _, _, rfl, rfl⟩
  | field hb hc =>
    split at hl <;> cases hl
    split at ht <;> cases ht
    exact Or.inr (Or.inl ⟨_, _, _, _, _, _, rfl, rfl, hb, hc⟩)
  | array hb hc =>
    split at hl <;> cases hl
    split at ht <;> cases ht
    exact Or.inr (Or.inr ⟨_, _, _, _, _, _, _, rfl, rfl, hb, hc⟩)

/-- What a store into an alias of a load adds is what the load finds there, if anything. -/
theorem finds_stored (hg : g.Indexed) {facts : Facts Fact} {n : Node} (hn : n ∈ g.nodes) {f : Fact}
    {s : Access} (hs : s ∈ (storesTable p g pts).getD (g.number n) []) :
    stored facts (p.stmtAt n) f s = .undefined ∨
      Finds p g pts (fun k => facts.input (g.number k)) f (p.stmtAt n)
        (stored facts (p.stmtAt n) f s) := by
  obtain ⟨-, hstore, place, hplace, hmeets⟩ := mem_storesTable.mp hs
  obtain ⟨hnode, hstmt, hstored⟩ := mem_stores.mp hstore
  rw [hg.nodeAt_number n hn] at hplace
  have hmem := Supergraph.nodeAt_mem hnode
  have hinput : facts.input (g.number (g.nodeAt s.node)) = facts.input s.node := by
    rw [hg.number_nodeAt _ hnode]
  rw [hstmt] at hstored
  rcases meets_cases hplace hstored hmeets with ⟨x, f, y, hl, ht⟩ | ⟨x, b, f, c, y, o, hl, ht, hb, hc⟩ |
    ⟨x, b, i, c, j, y, o, hl, ht, hb, hc⟩
  · right
    simp only [stored, hstmt, ht, hl, ← hinput]
    exact .static hmem ht
  · right
    simp only [stored, hstmt, ht, hl, ← hinput]
    exact .field hmem ht hb hc
  · simp only [stored, hstmt, ht, hl, ← hinput]
    split
    · rename_i halias
      exact Or.inr (.array hmem ht hb hc halias)
    · exact Or.inl rfl

/-- What a load finds is what some store into an alias adds. -/
theorem exists_stored (hg : g.Indexed) {facts : Facts Fact} {n : Node} (hn : n ∈ g.nodes) {f : Fact}
    {d : Value} (h : Finds p g pts (fun k => facts.input (g.number k)) f (p.stmtAt n) d) :
    ∃ s ∈ (storesTable p g pts).getD (g.number n) [], stored facts (p.stmtAt n) f s = d := by
  have hmem : ∀ {k : Node} {a b : Place}, k ∈ g.nodes → loadPlace? (p.stmtAt n) = some a →
      storePlace? (p.stmtAt k) = some b → Meets pts a b →
      { node := g.number k, stmt := p.stmtAt k, place := b } ∈
        (storesTable p g pts).getD (g.number n) [] := by
    intro k a b hk hload hstore hmeets
    refine mem_storesTable.mpr ⟨hg.number_lt n hn, mem_stores.mpr ⟨hg.number_lt k hk, ?_, hstore⟩, a,
      ?_, hmeets⟩
    · rw [hg.nodeAt_number k hk]
    · rwa [hg.nodeAt_number n hn]
  generalize hload : p.stmtAt n = load at h hmem ⊢
  cases h with
  | static hk hs =>
    refine ⟨_, hmem hk rfl (by rw [hs]; rfl) (.static _), ?_⟩
    simp only [stored, hs]
  | field hk hs hb hc =>
    refine ⟨_, hmem hk rfl (by rw [hs]; rfl) (.field hb hc), ?_⟩
    simp only [stored, hs]
  | array hk hs hb hc halias =>
    refine ⟨_, hmem hk rfl (by rw [hs]; rfl) (.array hb hc), ?_⟩
    simp only [stored, hs, halias, if_true]

/-- The value of a load is the least above what the load finds. -/
theorem loadedValue_le_iff (hg : g.Indexed) {facts : Facts Fact} {n : Node} (hn : n ∈ g.nodes) {f : Fact}
    {b : Value} :
    loadedValue facts ((storesTable p g pts).getD (g.number n) []) (p.stmtAt n) f ≤ b ↔
      ∀ d, Finds p g pts (fun k => facts.input (g.number k)) f (p.stmtAt n) d → d ≤ b := by
  rw [loadedValue_eq, foldl_sup_le_iff]
  constructor
  · rintro ⟨-, h⟩ d hd
    obtain ⟨s, hs, rfl⟩ := exists_stored hg hn hd
    exact h s hs
  · intro h
    refine ⟨bot_le, fun s hs => ?_⟩
    rcases finds_stored hg hn hs with hundef | hfinds
    · rw [hundef]
      exact Value.undefined_le _
    · exact h _ hfinds

theorem equations_of_solves (hg : g.Indexed) {s : Facts Fact} (h : (system p g pts).Solves s) :
    Equations p g pts ⟨s.input, s.output⟩ := by
  have hout : ∀ n ∈ g.nodes, Interprocedural.isBoundary g n = false → s.output (g.number n) =
      (system p g pts).transfer s (g.number n) (s.input (g.number n)) := fun n hn hb =>
    h.output _ (hg.number_lt n hn) ((congrArg _ (hg.nodeAt_number n hn)).trans hb)
  simp only [transfer_eq] at hout
  refine ⟨Interprocedural.flows_of_facts hg h.boundary h.input, fun n hn x hx => ?_,
    fun n hn hb hnone => ?_⟩
  · have hb : Interprocedural.isBoundary g n = false := by
      refine Interprocedural.isBoundary_eq_false (p := p) fun hnop => ?_
      rw [hnop] at hx
      cases hx
    have hload := hout n hn hb
    rw [hg.nodeAt_number n hn, hx] at hload
    show (∀ v, v ≠ x → (s.output (g.number n)).get v = _) ∧ IsLUB _ ((s.output (g.number n)).get x)
    rw [hload]
    refine ⟨fun v hv => Fact.get_update_of_ne _ _ hv.symm, ?_⟩
    rw [Fact.get_update_self, isLUB_iff_le_iff]
    exact fun b => loadedValue_le_iff hg hn
  · have hnode := hout n hn hb
    rw [hg.nodeAt_number n hn, hnone] at hnode
    exact hnode

theorem Finds.congr {before before' : Node → Fact} {here : Fact} {load : Stmt Nat} {d : Value}
    (h : Finds p g pts before here load d) (hsame : ∀ k ∈ g.nodes, before k = before' k) :
    Finds p g pts before' here load d := by
  cases h with
  | static hn hs =>
    rw [hsame _ hn]
    exact .static hn hs
  | field hn hs hb hc =>
    rw [hsame _ hn]
    exact .field hn hs hb hc
  | array hn hs hb hc halias =>
    rw [hsame _ hn] at halias ⊢
    exact .array hn hs hb hc halias

theorem bounds_of_equations (hg : g.Indexed) {a : Assignment Fact} (h : Equations p g pts a) :
    (system p g pts).Bounds (Facts.ofFns g.nodes.size a.before a.after) where
  boundary i hi hb := by
    have hi : i < g.nodes.size := hi
    rw [Facts.output_ofFns _ _ hi]
    exact (h.toFlows.bounds hg hi).1 hb
  input i hi hb := by
    have hi : i < g.nodes.size := hi
    rw [Facts.input_ofFns _ _ hi]
    exact (h.toFlows.bounds hg hi).2 hb
  output i hi hb := by
    have hi : i < g.nodes.size := hi
    have hmem := Supergraph.nodeAt_mem hi
    have hnumber := hg.number_nodeAt i hi
    rw [Facts.output_ofFns _ _ hi, transfer_eq]
    cases hload : intLoad? p (p.stmtAt (g.nodeAt i)) with
    | none =>
      have hout := h.after _ hmem hb hload
      rw [hnumber] at hout
      rw [hout, Facts.input_ofFns _ _ hi]
    | some x =>
      obtain ⟨hrest, hlub⟩ := h.load _ hmem x hload
      rw [hnumber] at hrest hlub
      intro v
      by_cases hv : v = x
      · subst hv
        have hle : loadedValue (Facts.ofFns g.nodes.size a.before a.after)
            ((storesTable p g pts).getD (g.number (g.nodeAt i)) []) (p.stmtAt (g.nodeAt i)) (a.before i) ≤
              (a.after i).get v := by
          refine (loadedValue_le_iff hg hmem).mpr fun d hd => hlub.1 (hd.congr fun k hk => ?_)
          exact Facts.input_ofFns _ _ (hg.number_lt k hk)
        rw [hnumber] at hle
        rwa [Fact.get_update_self, Facts.input_ofFns _ _ hi]
      · rw [Fact.get_update_of_ne _ _ (Ne.symm hv), hrest v hv, Facts.input_ofFns _ _ hi]

theorem leastSolution_of_outcome (hg : g.Indexed) {s : Facts Fact} (h : (system p g pts).Outcome s) :
    LeastSolution g.nodes.size (Equations p g pts) ⟨s.input, s.output⟩ :=
  h.leastSolution (lawful hg) (equations_of_solves hg) fun _ => bounds_of_equations hg

/-! ## The points-to sets of the program -/

/-- What a load finds only depends on what the variables of the program point to. -/
theorem Finds.of_pointsTo (hp : p.WellFormed) {pts' : VarId → IdSet}
    (hsame : ∀ v < p.vars.size, pts v = pts' v) {before : Node → Fact} {here : Fact} {n : Node}
    {d : Value} (h : Finds p g pts before here (p.stmtAt n) d) :
    Finds p g pts' before here (p.stmtAt n) d := by
  have hbase : ∀ {k : Node} {s : Stmt Nat} {v : VarId}, p.stmtAt k = s → v ∈ s.uses → pts v = pts' v := by
    intro k s v hs hv
    subst hs
    exact hsame v (hp.declared _ v (Method.mem_mentioned (Or.inr hv)))
  generalize hload : p.stmtAt n = load at h ⊢
  cases h with
  | static hk hstore => exact .static hk hstore
  | field hk hstore hb hc =>
    rw [hbase hload List.mem_cons_self] at hb
    rw [hbase hstore List.mem_cons_self] at hc
    exact .field hk hstore hb hc
  | array hk hstore hb hc halias =>
    rw [hbase hload List.mem_cons_self] at hb
    rw [hbase hstore List.mem_cons_self] at hc
    exact .array hk hstore hb hc halias

theorem equations_congr (hp : p.WellFormed) {pts' : VarId → IdSet}
    (hsame : ∀ v < p.vars.size, pts v = pts' v) {a : Assignment Fact} :
    Equations p g pts a ↔ Equations p g pts' a := by
  have hfinds : ∀ (before : Node → Fact) (here : Fact) (n : Node) (d : Value),
      Finds p g pts before here (p.stmtAt n) d ↔ Finds p g pts' before here (p.stmtAt n) d :=
    fun _ _ _ _ => ⟨.of_pointsTo hp hsame, .of_pointsTo hp fun v hv => (hsame v hv).symm⟩
  constructor
  · intro h
    refine ⟨h.toFlows, ?_, h.after⟩
    simpa only [hfinds] using h.load
  · intro h
    refine ⟨h.toFlows, ?_, h.after⟩
    simpa only [hfinds] using h.load

/-! ## The analysis -/

variable {r : PointsTo.Result} {limit : Int} {c : Solution Fact}

/-- The points-to sets of the variables of a program, as the analysis looks them up. -/
def pointsToTable (p : Program) (r : PointsTo.Result) (v : VarId) : IdSet :=
  ((Array.range p.vars.size).map r.pointsTo).getD v ∅

theorem pointsToTable_eq {v : VarId} (hv : v < p.vars.size) : pointsToTable p r v = r.pointsTo v := by
  simp [pointsToTable, Array.getD_eq_getD_getElem?, hv]

/-- The facts that the analysis returns are the least solution of its equations. -/
theorem leastSolution_of_ok (hp : p.WellFormed) (hg : g.Indexed)
    (h : (analyze p g r limit).start.1 = .ok c) :
    LeastSolution g.nodes.size (Equations p g r.pointsTo) c.assignment := by
  have houtcome : (system p g (pointsToTable p r)).Outcome ⟨c.before, c.after⟩ :=
    Interprocedural.outcome_of_solve h
  have hleast := leastSolution_of_outcome hg houtcome
  have hcongr := fun a => equations_congr (g := g) (a := a) hp (fun v => pointsToTable_eq (r := r) (v := v))
  exact ⟨(hcongr _).mp hleast.solves, fun b hb => hleast.least b ((hcongr b).mpr hb)⟩

/-- Without a limit the analysis ends. -/
theorem analyze_ends (hp : p.WellFormed) (hg : g.Indexed) (hlimit : limit ≤ 0) :
    Interprocedural.Ends p g (analyze p g r limit).start.1 := by
  refine Interprocedural.solve_ends (S := system p g (pointsToTable p r)) rfl (fun _ _ => rfl) ?_
    (solve_halts hp hg hlimit)
  intro i k hk
  rcases List.mem_append.mp hk with hk | hk
  · obtain ⟨-, -, -, s, hs, rfl, -⟩ := mem_loadsTable.mp hk
    exact (mem_loads.mp hs).1
  · exact Interprocedural.mem_dependents hg hk

end WholeProgram.Aliases

namespace WholeProgram.Boxed

theorem resolvable : PointsTo.Resolvable program := by decide

/-- The pointer analysis of the box has a result. -/
theorem exists_pointers : ∃ r, (PointsTo.analyze program {}).start.1 = .ok r :=
  PointsTo.analyze_succeeds_of_resolvable {} resolvable (by decide) (by decide)

end WholeProgram.Boxed

namespace WholeProgram.Aliases

variable {p : Program}

/-- Over the supergraph of a call graph, and for every pointer analysis, the analysis ends without a
limit, and the facts that it returns are the least solution of its equations. -/
theorem analyze_least {cg : MethodCallGraph} (hp : p.WellFormed) (hcg : cg.Built)
    (r : PointsTo.Result) :
    (∀ limit ≤ 0, Interprocedural.Ends p (.ofCallGraph p cg)
      (analyze p (.ofCallGraph p cg) r limit).start.1) ∧
    ∀ limit c, (analyze p (.ofCallGraph p cg) r limit).start.1 = .ok c →
      LeastSolution (Supergraph.ofCallGraph p cg).nodes.size
        (Equations p (.ofCallGraph p cg) r.pointsTo) c.assignment := by
  have hg := Supergraph.indexed_ofCallGraph hp hcg
  exact ⟨fun _ hlimit => analyze_ends hp hg hlimit, fun _ _ hc => leastSolution_of_ok hp hg hc⟩

/-- So it has a result for the box, with what the pointer analysis finds. -/
theorem analyze_least_boxed :
    ∃ r, (PointsTo.analyze Boxed.program {}).start.1 = .ok r ∧
      ∃ c, (analyze Boxed.program Boxed.graph r 0).start.1 = .ok c ∧
        LeastSolution Boxed.graph.nodes.size (Equations Boxed.program Boxed.graph r.pointsTo)
          c.assignment := by
  obtain ⟨r, hr⟩ := Boxed.exists_pointers
  obtain ⟨hends, hleast⟩ := analyze_least Boxed.wellFormed Boxed.built r
  obtain ⟨c, hc⟩ := (hends 0 le_rfl).solved Boxed.entries_ne_nil Boxed.declared
  exact ⟨r, hr, c, hc, hleast 0 c hc⟩

end WholeProgram.Aliases
