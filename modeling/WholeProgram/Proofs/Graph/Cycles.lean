import WholeProgram.Proofs.Graph.Components
import WholeProgram.Proofs.Graph.CycleWalk
import WholeProgram.Proofs.Graph.Elementary

/-!
# The enumeration of elementary cycles is exact

* `leastOnCycle_spec` — a round starts from the least node that leads back to itself;
* `walk_least` — the walk from it lists the cycles through it;
* `cyclesOver_spec` — the rounds end, and list each cycle of the nodes that are left once;
* `elementaryCycles_exact` — so the enumeration lists each elementary cycle of the graph once, and nothing else.
-/

namespace WholeProgram.Graph

open Relation (ReflTransGen TransGen)

variable {g : Graph} {search : ComponentSearch} {nodes c : List Nat} {u v w : Nat}

/-! ## The start of a round -/

/-- A component is a cycle of the graph when one of its nodes leads back to itself, and then all do. -/
theorem isRecursive_iff {parts : List (List Nat)} (h : StronglyConnected g.Arc nodes parts)
    (hnodup : nodes.Nodup) (harc : ∀ u w, g.Arc u w → w ∈ nodes) (hc : c ∈ parts) (hv : v ∈ c) :
    g.isRecursive c = true ↔ TransGen g.Arc v v := by
  have hcnodup := h.nodup hnodup hc
  match c, hc, hv, hcnodup with
  | [u], hc, hv, _ =>
    obtain rfl := List.mem_singleton.mp hv
    refine ⟨fun hloop => .single (hasEdge_iff.mp hloop), fun hloop => ?_⟩
    -- the way back stays in the component
    obtain ⟨w, hvw, hback⟩ := TransGen.head'_iff.mp hloop
    have hw := h.mem_of_reaches hnodup hc hv (harc v w hvw) (.single hvw) hback
    rw [List.mem_singleton.mp hw] at hvw
    exact hasEdge_iff.mpr hvw
  | u :: w :: rest, hc, hv, hcnodup =>
    refine ⟨fun _ => ?_, fun _ => rfl⟩
    obtain ⟨x, hx, hne⟩ : ∃ x ∈ u :: w :: rest, x ≠ v := by
      by_cases hu : u = v
      · exact ⟨w, by simp, by rintro rfl; subst hu; simp at hcnodup⟩
      · exact ⟨u, by simp, hu⟩
    have hxv := h.reaches hc hx hv
    rcases ReflTransGen.cases_head_iff.mp (h.reaches hc hv hx) with rfl | ⟨y, hvy, hreach⟩
    · exact absurd rfl hne
    · exact TransGen.head' hvy (hreach.trans hxv)

/-- The option has the least number with a property, if there is one. -/
def IsLeastIn (least : Option Nat) (p : Nat → Prop) : Prop :=
  (∀ m, least = some m → p m) ∧ ∀ v, p v → ∃ m, least = some m ∧ m ≤ v

theorem IsLeastIn.congr {least : Option Nat} {p q : Nat → Prop} (h : IsLeastIn least p)
    (hpq : ∀ v, p v ↔ q v) : IsLeastIn least q :=
  ⟨fun m hm => (hpq m).mp (h.1 m hm), fun v hv => h.2 v ((hpq v).mpr hv)⟩

/-- The least of some numbers, and of others whose least one is known. -/
theorem IsLeastIn.join {least : Option Nat} {p q : Nat → Prop} (h : IsLeastIn least p) (hv : q v)
    (hle : ∀ w, q w → v ≤ w) : IsLeastIn (some (least.elim v (min v))) fun w => p w ∨ q w := by
  cases least with
  | none =>
    refine ⟨fun m hm => Or.inr (Option.some.inj hm ▸ hv), fun w hw => ⟨v, rfl, ?_⟩⟩
    rcases hw with hw | hw
    · obtain ⟨m, hm, -⟩ := h.2 w hw
      exact absurd hm (Option.some_ne_none m).symm
    · exact hle w hw
  | some m =>
    refine ⟨fun k hk => ?_, fun w hw => ⟨min v m, rfl, ?_⟩⟩
    · have hk : min v m = k := Option.some.inj hk
      rcases Nat.le_total v m with hvm | hvm
      · rw [Nat.min_eq_left hvm] at hk
        exact Or.inr (hk ▸ hv)
      · rw [Nat.min_eq_right hvm] at hk
        exact Or.inl (hk ▸ h.1 m rfl)
    · rcases hw with hw | hw
      · obtain ⟨k, hk, hkw⟩ := h.2 w hw
        obtain rfl := Option.some.inj hk
        exact (Nat.min_le_right v m).trans hkw
      · exact (Nat.min_le_left v m).trans (hle w hw)

/-- One more component is added to those whose least node is known. -/
theorem IsLeastIn.leastOf {parts : List (List Nat)} (hg : g.Closed)
    (h : StronglyConnected g.Arc (List.range g.order) parts) {least : Option Nat} {p : Nat → Prop}
    (hleast : IsLeastIn least p) (hc : c ∈ parts) :
    IsLeastIn (g.leastOf least c) fun v => p v ∨ v ∈ c ∧ TransGen g.Arc v v := by
  obtain ⟨u, tail, hsorted⟩ := List.exists_cons_of_ne_nil fun hnil : sorted c = [] =>
    h.ne_nil c hc (List.perm_nil.mp (hnil ▸ (perm_sorted c).symm))
  have hu : u ∈ c := (perm_sorted c).mem_iff.mp (hsorted ▸ List.mem_cons_self)
  have hall : ∀ v ∈ c, g.isRecursive c = true ↔ TransGen g.Arc v v :=
    fun v hv => isRecursive_iff h List.nodup_range
      (fun x w hxw => List.mem_range.mpr (hg.lt w (hg.arc x w hxw).2)) hc hv
  unfold Graph.leastOf
  rw [hsorted]
  dsimp only
  by_cases hrec : g.isRecursive c = true
  · have hloop : TransGen g.Arc u u := (hall u hu).mp hrec
    have hnode : (g.node? u).isSome = true := by
      obtain ⟨w, huw, -⟩ := TransGen.head'_iff.mp hloop
      exact hg.node u (hg.arc u w huw).1
    rw [if_pos ⟨hrec, hnode⟩]
    exact hleast.join (q := fun v => v ∈ c ∧ TransGen g.Arc v v) ⟨hu, hloop⟩
      fun w hw => head_sorted_le hsorted hw.1
  · rw [if_neg fun h => hrec h.1]
    exact hleast.congr fun v =>
      (or_iff_left fun hv : v ∈ c ∧ TransGen g.Arc v v => hrec ((hall v hv.1).mpr hv.2)).symm

/-- A round starts from the least node that leads back to itself. -/
theorem leastOnCycle_spec {parts : List (List Nat)} (hg : g.Closed)
    (h : StronglyConnected g.Arc (List.range g.order) parts) :
    IsLeastIn (g.leastOnCycle parts) fun v => TransGen g.Arc v v := by
  have hfold : ∀ (cs : List (List Nat)) (least : Option Nat) (p : Nat → Prop), (∀ c ∈ cs, c ∈ parts) →
      IsLeastIn least p →
      IsLeastIn (cs.foldl g.leastOf least) fun v => p v ∨ ∃ c ∈ cs, v ∈ c ∧ TransGen g.Arc v v := by
    intro cs
    induction cs with
    | nil => exact fun _ _ _ hleast => hleast.congr (by simp)
    | cons c cs ih =>
      intro least p hcs hleast
      refine (ih _ _ (fun d hd => hcs d (List.mem_cons_of_mem c hd))
        (hleast.leastOf hg h (hcs c List.mem_cons_self))).congr fun v => ?_
      rw [List.exists_mem_cons_iff, or_assoc]
  refine (hfold parts none (fun _ => False) (fun c hc => hc) ?_).congr fun v => ?_
  · exact ⟨fun m hm => absurd hm (Option.some_ne_none m).symm, fun v hv => hv.elim⟩
  · rw [false_or]
    constructor
    · rintro ⟨c, -, -, hloop⟩
      exact hloop
    · intro hloop
      obtain ⟨w, hvw, -⟩ := TransGen.head'_iff.mp hloop
      obtain ⟨c, hc, hv⟩ := h.exists_part (List.mem_range.mpr (hg.lt v (hg.arc v w hvw).1))
      exact ⟨c, hc, hv, hloop⟩

/-! ## One round -/

theorem closes_iff {r : Nat → Nat → Prop} {start : Nat} {path rest : List Nat} :
    Closes r start path v rest ↔
      List.IsChain r (v :: (rest ++ [start])) ∧ rest.Nodup ∧ ∀ w ∈ rest, w ≠ start ∧ w ∉ v :: path := by
  induction rest generalizing path v with
  | nil =>
    simp only [List.nil_append, List.isChain_cons_cons, List.isChain_singleton, List.nodup_nil, and_true,
      List.not_mem_nil, false_implies, implies_true]
    exact ⟨fun | .close harc => harc, .close⟩
  | cons w rest ih =>
    rw [List.cons_append, List.isChain_cons_cons, List.nodup_cons]
    constructor
    · rintro (_ | ⟨harc, hstart, hnew, hcloses⟩)
      obtain ⟨hchain, hnodup, hout⟩ := ih.mp hcloses
      refine ⟨⟨harc, hchain⟩, ⟨fun hw => (hout w hw).2 List.mem_cons_self, hnodup⟩, fun x hx => ?_⟩
      rcases List.mem_cons.mp hx with rfl | hx
      · exact ⟨hstart, hnew⟩
      · exact ⟨(hout x hx).1, fun h => (hout x hx).2 (List.mem_cons_of_mem w h)⟩
    · rintro ⟨⟨harc, hchain⟩, ⟨hw, hnodup⟩, hout⟩
      have hfirst := hout w List.mem_cons_self
      refine .step harc hfirst.1 hfirst.2 (ih.mpr ⟨hchain, hnodup, fun x hx => ?_⟩)
      have hrest := hout x (List.mem_cons_of_mem w hx)
      refine ⟨hrest.1, fun h => ?_⟩
      rcases List.mem_cons.mp h with rfl | h
      · exact hw hx
      · exact hrest.2 h

/-- The ways from a node back to itself are its elementary cycles. -/
theorem closes_self_iff {r : Nat → Nat → Prop} {rest : List Nat} :
    Closes r v [] v rest ↔ Elementary r (v :: rest : List Nat) := by
  rw [closes_iff, elementary_cons_iff, List.nodup_cons]
  constructor
  · rintro ⟨hchain, hnodup, hout⟩
    exact ⟨⟨fun hv => (hout v hv).1 rfl, hnodup⟩, hchain⟩
  · rintro ⟨⟨hv, hnodup⟩, hchain⟩
    refine ⟨hchain, hnodup, fun w hw => ?_⟩
    have hne : w ≠ v := by
      rintro rfl
      exact hv hw
    exact ⟨hne, by rwa [List.mem_singleton]⟩

/-- A subgraph has the cycles whose nodes it has. -/
theorem listed_subgraph {l : List Nat} (hlt : ∀ v ∈ nodes, v < g.order) :
    Listed (g.subgraph nodes).Arc l ↔ Listed g.Arc l ∧ ∀ v ∈ cycleOf l, v ∈ nodes := by
  have hrestrict : ∀ c, Elementary (g.subgraph nodes).Arc c ↔ Elementary g.Arc c ∧ ∀ v ∈ c, v ∈ nodes :=
    fun c => elementary_restrict_iff fun u w => arc_subgraph hlt
  constructor
  · rintro ⟨v, rest, rfl, hleast, h⟩
    obtain ⟨h, hnodes⟩ := (hrestrict _).mp h
    exact ⟨⟨v, rest, rfl, hleast, h⟩, by rwa [cycleOf_cons]⟩
  · rintro ⟨⟨v, rest, rfl, hleast, h⟩, hnodes⟩
    rw [cycleOf_cons] at hnodes
    exact ⟨v, rest, rfl, hleast, (hrestrict _).mpr ⟨h, hnodes⟩⟩

/-- The walk from the least node that leads back to itself lists the cycles that start there, each once. -/
theorem walk_least (hg : g.Closed) (hleast : ∀ w, TransGen g.Arc w w → v ≤ w) (hv : TransGen g.Arc v v)
    (found : Array (List Nat)) :
    ∃ b t cs, walk g v [] v { found } = some (b, t) ∧ t.found.toList = found.toList ++ cs ∧ cs.Nodup ∧
      ∀ l, l ∈ cs ↔ Listed g.Arc l ∧ l.headD 0 = v := by
  have hkey : v ∈ g.keys := by
    obtain ⟨w, hvw, -⟩ := TransGen.head'_iff.mp hv
    exact (hg.arc v w hvw).1
  have hblocks : Blocks g v [] { found } :=
    ⟨fun x hx => absurd hx List.not_mem_nil, fun x y hy => by simp [CycleWalk.waitersOf] at hy,
      fun y hy => absurd hy (IdSet.not_mem_empty y)⟩
  obtain ⟨t, rests, hrun, hlists, -⟩ := walk_spec hg [] v { found } hkey hblocks (IdSet.not_mem_empty v)
  have hlisting : ∀ rest, listing v [v] rest = v :: (rest ++ [v]) := fun rest => by simp [listing]
  refine ⟨_, t, _, hrun, hlists.found, hlists.nodup.map fun rest rest' h => ?_, fun l => ?_⟩
  · rw [hlisting, hlisting] at h
    exact List.append_cancel_right (List.cons.inj h).2
  · rw [List.mem_map]
    constructor
    · rintro ⟨rest, hrest, rfl⟩
      have helem := closes_self_iff.mp ((hlists.mem rest).mp hrest)
      rw [hlisting]
      refine ⟨⟨v, rest, rfl, fun w hw => ?_, helem⟩, rfl⟩
      refine Nat.lt_of_le_of_ne (hleast w (helem.transGen (Cycle.mem_coe_iff.mpr (.tail v hw)))) ?_
      rintro rfl
      exact (List.nodup_cons.mp (elementary_cons_iff.mp helem).1).1 hw
    · rintro ⟨⟨u, rest, rfl, -, helem⟩, rfl⟩
      exact ⟨rest, (hlists.mem rest).mpr (closes_self_iff.mpr helem), hlisting rest⟩

/-! ## All rounds -/

/-- Of numbers in increasing order, those beyond `m` are left. -/
theorem mem_dropWhile_le {m : Nat} (hsorted : nodes.Pairwise (· < ·)) :
    v ∈ nodes.dropWhile (· ≤ m) ↔ v ∈ nodes ∧ m < v := by
  induction nodes with
  | nil => simp
  | cons u nodes ih =>
    obtain ⟨hu, hsorted⟩ := List.pairwise_cons.mp hsorted
    rw [List.dropWhile_cons]
    split
    · rename_i hle
      rw [ih hsorted, List.mem_cons]
      refine and_congr_left fun hmv => (or_iff_right ?_).symm
      rintro rfl
      exact absurd hmv (Nat.not_lt.mpr (of_decide_eq_true hle))
    · rename_i hle
      have hmu : m < u := Nat.lt_of_not_le fun h => hle (decide_eq_true h)
      refine (and_iff_left_of_imp fun hv => ?_).symm
      rcases List.mem_cons.mp hv with rfl | hv
      · exact hmu
      · exact hmu.trans (hu v hv)

theorem length_dropWhile_le_lt {m : Nat} (hsorted : nodes.Pairwise (· < ·)) (hm : m ∈ nodes) :
    (nodes.dropWhile (· ≤ m)).length < nodes.length := by
  have hsub : (nodes.dropWhile (· ≤ m)).Sublist nodes := List.dropWhile_sublist _
  refine Nat.lt_of_le_of_ne hsub.length_le fun heq => ?_
  rw [← hsub.eq_of_length heq, mem_dropWhile_le hsorted] at hm
  exact Nat.lt_irrefl m hm.2

/-- The cycles of the nodes beyond `m` are those that start beyond `m`. -/
theorem listed_beyond {m : Nat} {l : List Nat} (hlt : ∀ v ∈ nodes, v < g.order)
    (hsorted : nodes.Pairwise (· < ·)) :
    Listed (g.subgraph (nodes.dropWhile (· ≤ m))).Arc l ↔
      Listed (g.subgraph nodes).Arc l ∧ m < l.headD 0 := by
  rw [listed_subgraph hlt, listed_subgraph fun v hv => hlt v ((mem_dropWhile_le hsorted).mp hv).1, and_assoc]
  refine and_congr_right fun hl => ?_
  obtain ⟨v, rest, rfl, hleast, -⟩ := hl
  simp only [cycleOf_cons, Cycle.mem_coe_iff, mem_dropWhile_le hsorted, List.headD_cons]
  refine ⟨fun h => ⟨fun w hw => (h w hw).1, (h v List.mem_cons_self).2⟩, fun h w hw => ⟨h.1 w hw, ?_⟩⟩
  rcases List.mem_cons.mp hw with rfl | hw
  · exact h.2
  · exact h.2.trans (hleast w hw)

/-- The list has the lists with a property, each once, in the order of their first nodes. -/
structure Enumerates (cs : List (List Nat)) (p : List Nat → Prop) : Prop where
  nodup : cs.Nodup
  mem : ∀ l, l ∈ cs ↔ p l
  heads : cs.Pairwise fun l l' => l.headD 0 ≤ l'.headD 0

theorem Enumerates.nil {p : List Nat → Prop} (h : ∀ l, ¬ p l) : Enumerates [] p where
  nodup := List.nodup_nil
  mem l := ⟨fun hl => absurd hl List.not_mem_nil, fun hl => absurd hl (h l)⟩
  heads := .nil

/-- A round and those after it, which start beyond the least node. -/
theorem Enumerates.append {cs cs' : List (List Nat)} {p : List Nat → Prop} {least : Nat} (hnodup : cs.Nodup)
    (hmem : ∀ l, l ∈ cs ↔ p l ∧ l.headD 0 = least) (h : Enumerates cs' fun l => p l ∧ least < l.headD 0)
    (hle : ∀ l, p l → least ≤ l.headD 0) : Enumerates (cs ++ cs') p where
  nodup := by
    refine List.nodup_append'.mpr ⟨hnodup, h.nodup, fun l hl hl' => ?_⟩
    have hlt := ((h.mem l).mp hl').2
    rw [((hmem l).mp hl).2] at hlt
    exact Nat.lt_irrefl _ hlt
  mem l := by
    rw [List.mem_append, hmem, h.mem]
    refine ⟨fun hl => hl.elim And.left And.left, fun hl => ?_⟩
    rcases Nat.eq_or_lt_of_le (hle l hl) with heq | hlt
    · exact Or.inl ⟨hl, heq.symm⟩
    · exact Or.inr ⟨hl, hlt⟩
  heads := by
    refine List.pairwise_append.mpr ⟨?_, h.heads, fun l hl l' hl' => ?_⟩
    · exact List.pairwise_of_forall_mem_list fun l hl l' hl' =>
        (((hmem l).mp hl).2.trans ((hmem l').mp hl').2.symm).le
    · rw [((hmem l).mp hl).2]
      exact Nat.le_of_lt ((h.mem l').mp hl').2

/-- The rounds end, and list the cycles of the nodes that are left, by their least nodes. -/
theorem cyclesOver_spec (hsearch : Finds search fun g => List.range g.order) (nodes : List Nat)
    (hlt : ∀ v ∈ nodes, v < g.order) (hsorted : nodes.Pairwise (· < ·)) (found : Array (List Nat)) :
    ∃ r cs, g.cyclesOver search nodes found = some r ∧ r.toList = found.toList ++ cs ∧
      Enumerates cs (Listed (g.subgraph nodes).Arc) := by
  induction hn : nodes.length using Nat.strongRecOn generalizing nodes found with
  | ind n ih =>
    subst hn
    have hg : (g.subgraph nodes).Closed := closed_subgraph hlt (hsorted.imp Nat.ne_of_lt)
    have hleast := leastOnCycle_spec hg (hsearch _ hg)
    have hkeys : ∀ v, TransGen (g.subgraph nodes).Arc v v → v ∈ nodes := by
      intro v hv
      obtain ⟨w, harc, -⟩ := TransGen.head'_iff.mp hv
      exact (hg.arc v w harc).1
    cases nodes with
    | nil =>
      refine ⟨found, [], by rw [cyclesOver], (List.append_nil _).symm, .nil fun l h => ?_⟩
      exact absurd (hkeys _ h.transGen) List.not_mem_nil
    | cons k keys =>
      rw [cyclesOver]
      dsimp only
      split
      · rename_i hnone
        refine ⟨found, [], rfl, (List.append_nil _).symm, .nil fun l h => ?_⟩
        obtain ⟨m, hm, -⟩ := hleast.2 _ h.transGen
        exact absurd (hnone.symm.trans hm) (Option.some_ne_none m).symm
      · rename_i least hsome
        have hle : ∀ w, TransGen (g.subgraph (k :: keys)).Arc w w → least ≤ w := by
          intro w hw
          obtain ⟨m, hm, hle⟩ := hleast.2 w hw
          exact Option.some.inj (hsome.symm.trans hm) ▸ hle
        have hstart := hleast.1 least hsome
        obtain ⟨b, t, cs, hrun, hfound, hnodup, hmem⟩ := walk_least hg hle hstart found
        have hshorter := length_dropWhile_le_lt hsorted (hkeys least hstart)
        obtain ⟨r, cs', hrest, hfound', hcs'⟩ := ih _ hshorter ((k :: keys).dropWhile (· ≤ least))
          (fun v hv => hlt v ((mem_dropWhile_le hsorted).mp hv).1)
          (hsorted.sublist (List.dropWhile_sublist _)) t.found rfl
        have hbeyond : Enumerates cs' fun l => Listed (g.subgraph (k :: keys)).Arc l ∧ least < l.headD 0 :=
          { hcs' with mem := fun l => (hcs'.mem l).trans (listed_beyond hlt hsorted) }
        refine ⟨r, cs ++ cs', ?_, ?_, .append hnodup hmem hbeyond fun l h => hle _ h.transGen⟩
        · rw [hrun, Option.bind_some, dif_pos hshorter]
          exact hrest
        · rw [hfound', hfound, List.append_assoc]

/-- An enumeration of a full graph, by any search that finds the components of its subgraphs, ends and
lists each elementary cycle once, in the order of the least nodes. -/
theorem cyclesBy?_spec (hsearch : Finds search fun g => List.range g.order) (hfull : g.Full)
    (hlt : ∀ u v, g.Arc u v → u < g.order ∧ v < g.order) :
    ∃ cs, g.cyclesBy? search = some cs ∧ cs.Nodup ∧ (∀ l, l ∈ cs ↔ Listed g.Arc l) ∧
      cs.Pairwise fun l l' => l.headD 0 ≤ l'.headD 0 := by
  have hrange : ∀ v ∈ g.keys, v < g.order := by
    rw [hfull.keys]
    exact fun v hv => List.mem_range.mp hv
  have hsorted : g.keys.Pairwise (· < ·) := by
    rw [hfull.keys]
    exact List.pairwise_lt_range
  obtain ⟨r, cs, hrun, hfound, hnodup, hmem, hheads⟩ := cyclesOver_spec hsearch g.keys hrange hsorted #[]
  refine ⟨cs, ?_, hnodup, fun l => ?_, hheads⟩
  · rw [cyclesBy?, hrun, Option.map_some, hfound]
    rfl
  · -- all cycles are within the nodes
    rw [hmem, listed_subgraph hrange]
    refine and_iff_left_of_imp fun h v hv => ?_
    obtain ⟨w, harc, -⟩ := TransGen.head'_iff.mp (h.elementary.transGen hv)
    rw [hfull.keys]
    exact List.mem_range.mpr (hlt v w harc).1

/-- The edges added to a graph, without those whose ends are not among its `n` nodes. -/
def Added (n : Nat) (edges : List (Int × Int)) (u v : Nat) : Prop :=
  u < n ∧ v < n ∧ ((u : Int), (v : Int)) ∈ edges

/-- The enumeration of elementary cycles is exact on every graph that is built by adding edges: it ends,
lists cycles from their least nodes to their least nodes, in the order of these, and each elementary cycle
once. -/
theorem elementaryCycles_exact {strong : ComponentSearch} (hstrong : Finds strong fun g => List.range g.order)
    (labels : Array String) (edges : List (Int × Int)) :
    ∃ cs, (ofEdges labels edges).cyclesBy? strong = some cs ∧ cs.Nodup ∧
      (∀ l ∈ cs, Listed (Added labels.size edges) l) ∧
      (∀ c : Cycle Nat, Elementary (Added labels.size edges) c → ∃! l, l ∈ cs ∧ cycleOf l = c) ∧
      cs.Pairwise fun l l' => l.headD 0 ≤ l'.headD 0 := by
  obtain ⟨hfull, horder, harc⟩ := ofEdges_spec labels edges
  have hsame : (ofEdges labels edges).Arc = Added labels.size edges := by
    funext u v
    exact propext (harc u v)
  obtain ⟨cs, hrun, hnodup, hmem, hheads⟩ := cyclesBy?_spec hstrong hfull fun u v h => by
    rw [horder]
    exact ⟨((harc u v).mp h).1, ((harc u v).mp h).2.1⟩
  rw [hsame] at hmem
  refine ⟨cs, hrun, hnodup, fun l hl => (hmem l).mp hl, fun c hc => ?_, hheads⟩
  simp only [hmem]
  exact hc.existsUnique_listed

/-- Two rings joined by an edge, one with a self-loop, and edges that lead nowhere. -/
theorem elementaryCycles_rings :
    ∃ cs, (ofEdges #["a", "b", "c", "d", "e", "f"]
        [(0, 1), (1, 2), (2, 0), (2, 2), (3, 4), (4, 3), (4, 5), (1, 3), (5, 9), (-1, 0)]).cyclesBy?
          searchNumbers = some cs ∧
      [0, 1, 2, 0] ∈ cs ∧ [2, 2] ∈ cs ∧ [3, 4, 3] ∈ cs := by
  obtain ⟨cs, hrun, -, hlisted, hall, -⟩ := elementaryCycles_exact searchNumbers_finds
    #["a", "b", "c", "d", "e", "f"]
    [(0, 1), (1, 2), (2, 0), (2, 2), (3, 4), (4, 3), (4, 5), (1, 3), (5, 9), (-1, 0)]
  -- a listed cycle is the list that the enumeration has for it
  have hmem : ∀ l, Listed (Added 6 [(0, 1), (1, 2), (2, 0), (2, 2), (3, 4), (4, 3), (4, 5), (1, 3), (5, 9),
      (-1, 0)]) l → l ∈ cs := by
    intro l hl
    obtain ⟨l', ⟨hl', hcycle⟩, -⟩ := hall (cycleOf l) hl.elementary
    exact hl.elementary.existsUnique_listed.unique ⟨hlisted l' hl', hcycle⟩ ⟨hl, rfl⟩ ▸ hl'
  refine ⟨cs, hrun, hmem _ ⟨0, [1, 2], rfl, by decide, ?_⟩, hmem _ ⟨2, [], rfl, by decide, ?_⟩,
    hmem _ ⟨3, [4], rfl, by decide, ?_⟩⟩
  all_goals exact elementary_cons_iff.mpr ⟨by decide, by simp [Added]⟩

end WholeProgram.Graph
