import WholeProgram.Graph.Cycles
import WholeProgram.Proofs.Graph.Arcs
import WholeProgram.Proofs.Data.IdSet

/-!
# The walk lists the ways back to the start

* `Closes` — the ways from a node to the start that cross neither the path nor themselves;
* `release_spec` — what is blocked and what waits after a release;
* `Blocks` — why a node is blocked: it is on the path, or no way from it closes
  (`Blocks.not_closes`);
* `walk_spec` — the walk ends, keeps `Blocks`, and finds each way that closes once.
-/

namespace WholeProgram.Graph

/-! ## Releases -/

namespace CycleWalk

variable {s t : CycleWalk} {u v w x y : Nat}

theorem waitersOf_setWaiters (nodes : IdSet) :
    (s.setWaiters u nodes).waitersOf x = if u = x then nodes else s.waitersOf x := by
  unfold waitersOf setWaiters
  simp only [Std.HashMap.getElem?_insert, beq_iff_eq]
  split <;> rfl

@[simp]
theorem mem_blocked_block : x ∈ (s.block v).blocked ↔ x = v ∨ x ∈ s.blocked := IdSet.mem_insert ..

/-- Nodes other than `u` are released together with those that wait for them, and only if they wait,
one for another, for `u`. -/
structure Loosened (u : Nat) (s t : CycleWalk) : Prop where
  found : t.found = s.found
  blocked : ∀ x, x ∈ t.blocked → x ∈ s.blocked
  waiting : ∀ x y, y ∈ t.waitersOf x → y ∈ s.waitersOf x
  dropped : ∀ x y, y ∈ s.waitersOf x → y ∈ t.blocked → y ∈ t.waitersOf x
  emptied : ∀ x y, x ∈ s.blocked → x ≠ u → y ∈ t.waitersOf x → x ∈ t.blocked
  kept : ∀ keep : Nat → Prop, (∀ y, keep y → y ∈ s.blocked) → ¬ keep u →
    (∀ x y, keep y → y ∈ s.waitersOf x → keep x) → ∀ y, keep y → y ∈ t.blocked

theorem Loosened.refl (u : Nat) (s : CycleWalk) : Loosened u s s where
  found := rfl
  blocked _ hx := hx
  waiting _ _ hy := hy
  dropped _ _ hy _ := hy
  emptied _ _ hx _ _ := hx
  kept _ hsub _ _ := hsub

theorem Loosened.trans {s' : CycleWalk} (h : Loosened u s t) (h' : Loosened u t s') : Loosened u s s' where
  found := h'.found.trans h.found
  blocked x hx := h.blocked x (h'.blocked x hx)
  waiting x y hy := h.waiting x y (h'.waiting x y hy)
  dropped x y hy hb := h'.dropped x y (h.dropped x y hy (h'.blocked y hb)) hb
  emptied x y hx hne hy := h'.emptied x y (h.emptied x y hx hne (h'.waiting x y hy)) hne hy
  kept keep hsub hu hclosed :=
    h'.kept keep (h.kept keep hsub hu hclosed) hu fun x y hk hy => hclosed x y hk (h.waiting x y hy)

theorem loosened_unblock : Loosened u s (s.unblock u) where
  found := rfl
  blocked x hx := ((IdSet.mem_erase ..).mp hx).1
  waiting _ _ hy := hy
  dropped _ _ hy _ := hy
  emptied x _ hx hne _ := (IdSet.mem_erase ..).mpr ⟨hx, hne⟩
  kept keep hsub hu _ y hy := (IdSet.mem_erase ..).mpr ⟨hsub y hy, by rintro rfl; exact hu hy⟩

/-- One node stops waiting for `u`, and is released if it is blocked. -/
theorem Loosened.cross (hw : w ∈ s.blocked → w ∈ s.waitersOf u)
    (h : Loosened w (s.setWaiters u ((s.waitersOf u).erase w)) t) (hnot : ¬ w ∈ t.blocked)
    (hempty : w ∈ s.blocked → ∀ y, ¬ y ∈ t.waitersOf w) : Loosened u s t := by
  have hsub : ∀ x y, y ∈ (s.setWaiters u ((s.waitersOf u).erase w)).waitersOf x → y ∈ s.waitersOf x := by
    intro x y hy
    rw [waitersOf_setWaiters] at hy
    split at hy
    · rename_i hx
      exact hx ▸ ((IdSet.mem_erase ..).mp hy).1
    · exact hy
  refine ⟨h.found, h.blocked, fun x y hy => hsub x y (h.waiting x y hy), ?_, ?_, ?_⟩
  · intro x y hy hb
    refine h.dropped x y ?_ hb
    rw [waitersOf_setWaiters]
    split
    · rename_i hx
      exact (IdSet.mem_erase ..).mpr ⟨hx ▸ hy, by rintro rfl; exact hnot hb⟩
    · exact hy
  · intro x y hx _ hy
    refine h.emptied x y hx ?_ hy
    rintro rfl
    exact hempty hx y hy
  · intro keep hkeep hu hclosed
    exact h.kept keep hkeep (fun hkw => hu (hclosed u w hkw (hw (hkeep w hkw))))
      fun x y hk hy => hclosed x y hk (hsub x y hy)

/-- A release ends: each release inside it is of a node that is still blocked. Afterwards the node is
not blocked and nothing waits for it. -/
theorem release_spec (s : CycleWalk) (u : Nat) : ∃ t, s.release u = some t ∧ Loosened u s t ∧
    ¬ u ∈ t.blocked ∧ ∀ y, ¬ y ∈ t.waitersOf u := by
  induction hn : (s.blocked.erase u).toFinset.card using Nat.strongRecOn generalizing s u with
  | ind n ih =>
    subst hn
    rw [release]
    -- the nodes that still wait for `u` are those that are left in the list
    have hloop : ∀ (ws : List Nat) (t : CycleWalk), Loosened u s t → ¬ u ∈ t.blocked →
        (∀ y, y ∈ t.waitersOf u → y ∈ ws) → (∀ y, y ∈ ws → y ∈ s.waitersOf u) →
        ∃ t', ws.foldlM (fun s w =>
            let s := s.setWaiters u ((s.waitersOf u).erase w)
            if s.blocked.contains w then s.release w else some s) t = some t' ∧
          Loosened u s t' ∧ ¬ u ∈ t'.blocked ∧ ∀ y, ¬ y ∈ t'.waitersOf u := by
      intro ws
      induction ws with
      | nil => exact fun t hst hu hleft _ => ⟨t, rfl, hst, hu, fun y hy => List.not_mem_nil (hleft y hy)⟩
      | cons w ws ihws =>
        intro t hst hu hleft hwait
        have hwu : w ∈ s.waitersOf u := hwait w List.mem_cons_self
        have hcut : ∀ y, y ∈ (t.setWaiters u ((t.waitersOf u).erase w)).waitersOf u → y ∈ ws := by
          intro y hy
          rw [waitersOf_setWaiters, if_pos rfl, IdSet.mem_erase] at hy
          exact (List.mem_cons.mp (hleft y hy.1)).resolve_left hy.2
        rw [List.foldlM_cons]
        by_cases hb : w ∈ t.blocked
        · have hlt : (t.blocked.erase w).toFinset.card < (s.blocked.erase u).toFinset.card := by
            refine IdSet.card_toFinset_lt (i := w) (fun j hj => ?_) ?_ fun h => ((IdSet.mem_erase ..).mp h).2 rfl
            · rw [IdSet.mem_erase] at hj ⊢
              exact ⟨hst.blocked j hj.1, by rintro rfl; exact hu hj.1⟩
            · exact (IdSet.mem_erase ..).mpr ⟨hst.blocked w hb, by rintro rfl; exact hu hb⟩
          obtain ⟨t', hrun, hloose, hnot, hempty⟩ :=
            ih _ hlt (t.setWaiters u ((t.waitersOf u).erase w)) w rfl
          obtain ⟨t'', hrest, hspec⟩ := ihws t'
            (hst.trans (Loosened.cross (fun _ => hst.dropped u w hwu hb) hloose hnot fun _ => hempty))
            (fun h => hu (hloose.blocked u h)) (fun y hy => hcut y (hloose.waiting u y hy))
            fun y hy => hwait y (List.mem_cons_of_mem w hy)
          refine ⟨t'', ?_, hspec⟩
          dsimp only
          rw [if_pos (show (t.setWaiters u _).blocked.contains w = true from hb), hrun]
          exact hrest
        · have hloose : Loosened u t (t.setWaiters u ((t.waitersOf u).erase w)) :=
            Loosened.cross (fun h => absurd h hb) (Loosened.refl _ _) hb fun h => absurd h hb
          obtain ⟨t'', hrest, hspec⟩ := ihws _ (hst.trans hloose) hu hcut
            fun y hy => hwait y (List.mem_cons_of_mem w hy)
          refine ⟨t'', ?_, hspec⟩
          dsimp only
          rw [if_neg (show ¬ (t.setWaiters u _).blocked.contains w = true from hb)]
          exact hrest
    exact hloop _ _ loosened_unblock (fun h => ((IdSet.mem_erase ..).mp h).2 rfl)
      (fun y hy => (IdSet.mem_toList ..).mpr hy) fun y hy => (IdSet.mem_toList ..).mp hy

/-- Waiting for the successors of `v` changes nothing else. -/
theorem await_spec (v : Nat) (nodes : List Nat) (s : CycleWalk) :
    (s.await v nodes).found = s.found ∧ (s.await v nodes).blocked = s.blocked ∧
      ∀ x y, y ∈ (s.await v nodes).waitersOf x ↔ y ∈ s.waitersOf x ∨ x ∈ nodes ∧ y = v := by
  unfold await
  induction nodes generalizing s with
  | nil => simp
  | cons w nodes ih =>
    obtain ⟨hfound, hblocked, hwait⟩ := ih (s.setWaiters w ((s.waitersOf w).insert v))
    refine ⟨hfound, hblocked, fun x y => ?_⟩
    rw [List.foldl_cons, hwait, waitersOf_setWaiters, List.mem_cons]
    split
    · rename_i hx
      subst hx
      rw [IdSet.mem_insert]
      tauto
    · rename_i hx
      have hx : x ≠ w := fun h => hx h.symm
      tauto

end CycleWalk

/-! ## Why nodes are blocked -/

variable {g : Graph} {start : Nat}

/-- A way from `v` back to the start, by the nodes of `rest`, that crosses neither the path nor itself. -/
inductive Closes (arc : Nat → Nat → Prop) (start : Nat) : List Nat → Nat → List Nat → Prop
  | close {path : List Nat} {v : Nat} : arc v start → Closes arc start path v []
  | step {path : List Nat} {v w : Nat} {rest : List Nat} : arc v w → w ≠ start → w ∉ v :: path →
      Closes arc start (v :: path) w rest → Closes arc start path v (w :: rest)

/-- Nodes are blocked because they are on the path or because all their successors are blocked too and
would release them. -/
structure Blocks (g : Graph) (start : Nat) (path : List Nat) (s : CycleWalk) : Prop where
  onPath : ∀ x ∈ path, x ∈ s.blocked
  waiting : ∀ x y, y ∈ s.waitersOf x → x ∈ s.blocked
  shut : ∀ y, y ∈ s.blocked → y ∉ path →
    ¬ g.Arc y start ∧ ∀ w, g.Arc y w → w ∈ s.blocked ∧ y ∈ s.waitersOf w

namespace Blocks

variable {path : List Nat} {s t : CycleWalk} {v w : Nat}

/-- No way closes from a blocked node beside the path. -/
theorem not_closes (h : Blocks g start path s) {longer rest : List Nat} (hsub : ∀ x ∈ path, x ∈ longer)
    (hv : v ∈ s.blocked) (hpath : v ∉ path) : ¬ Closes g.Arc start longer v rest := by
  intro hcloses
  induction hcloses with
  | close harc => exact (h.shut _ hv hpath).1 harc
  | step harc _ hnew _ ih =>
    have hnew := List.ne_and_not_mem_of_not_mem_cons hnew
    exact ih (fun x hx => List.mem_cons_of_mem _ (hsub x hx)) ((h.shut _ hv hpath).2 _ harc).1
      fun hw => hnew.2 (hsub _ hw)

theorem block (h : Blocks g start path s) (v : Nat) : Blocks g start (v :: path) (s.block v) where
  onPath x hx := CycleWalk.mem_blocked_block.mpr ((List.mem_cons.mp hx).imp_right (h.onPath x))
  waiting x y hy := CycleWalk.mem_blocked_block.mpr (Or.inr (h.waiting x y hy))
  shut y hy hpath := by
    have hpath := List.ne_and_not_mem_of_not_mem_cons hpath
    have hy := (CycleWalk.mem_blocked_block.mp hy).resolve_left hpath.1
    have hshut := h.shut y hy hpath.2
    exact ⟨hshut.1, fun w hw => ⟨CycleWalk.mem_blocked_block.mpr (Or.inr (hshut.2 w hw).1), (hshut.2 w hw).2⟩⟩

/-- Leaving a node that closed a way: what is still blocked is still shut. -/
theorem release (h : Blocks g start (v :: path) s) (hpath : ∀ x ∈ path, x ∈ t.blocked)
    (hloose : CycleWalk.Loosened v s t) (hv : ¬ v ∈ t.blocked) (hempty : ∀ y, ¬ y ∈ t.waitersOf v) :
    Blocks g start path t := by
  have hwaiting : ∀ x y, y ∈ t.waitersOf x → x ∈ t.blocked := by
    intro x y hy
    refine hloose.emptied x y (h.waiting x y (hloose.waiting x y hy)) ?_ hy
    rintro rfl
    exact hempty y hy
  refine ⟨hpath, hwaiting, fun y hy hout => ?_⟩
  have hne : y ≠ v := by
    rintro rfl
    exact hv hy
  obtain ⟨hstart, hsuccs⟩ := h.shut y (hloose.blocked y hy) (List.not_mem_cons_of_ne_of_not_mem hne hout)
  refine ⟨hstart, fun w hw => ?_⟩
  have hwait : y ∈ t.waitersOf w := hloose.dropped w y (hsuccs w hw).2 hy
  exact ⟨hwaiting w y hwait, hwait⟩

/-- Leaving a node that closed no way: its successors are blocked, and it waits for them. -/
theorem await (h : Blocks g start (v :: path) s) (hstart : ¬ g.Arc v start)
    (hsuccs : ∀ w, g.Arc v w → w ∈ s.blocked) : Blocks g start path (s.await v (g.succsOf v).toList) := by
  obtain ⟨-, hblocked, hwait⟩ := CycleWalk.await_spec v (g.succsOf v).toList s
  refine ⟨fun x hx => ?_, fun x y hy => ?_, fun y hy hout => ?_⟩
  · rw [hblocked]
    exact h.onPath x (List.mem_cons_of_mem v hx)
  · rw [hblocked]
    rcases (hwait x y).mp hy with hy | ⟨hx, -⟩
    · exact h.waiting x y hy
    · exact hsuccs x ((IdSet.mem_toList ..).mp hx)
  · rw [hblocked] at hy ⊢
    by_cases hyv : y = v
    · subst hyv
      exact ⟨hstart, fun w hw => ⟨hsuccs w hw, (hwait w y).mpr (Or.inr ⟨(IdSet.mem_toList ..).mpr hw, rfl⟩)⟩⟩
    · obtain ⟨hnot, hall⟩ := h.shut y hy (List.not_mem_cons_of_ne_of_not_mem hyv hout)
      exact ⟨hnot, fun w hw => ⟨(hall w hw).1, (hwait w y).mpr (Or.inl (hall w hw).2)⟩⟩

end Blocks

/-! ## What a walk finds -/

/-- The ways that go on from the path to `w` first: the closing one, or one that goes through `w`. -/
def Branch (arc : Nat → Nat → Prop) (start : Nat) (path : List Nat) (w : Nat) (rest : List Nat) : Prop :=
  w = start ∧ rest = [] ∨
    ∃ tail, rest = w :: tail ∧ w ≠ start ∧ w ∉ path ∧ Closes arc start path w tail

theorem closes_iff_branch {arc : Nat → Nat → Prop} {path rest : List Nat} {v : Nat} :
    Closes arc start path v rest ↔ ∃ w, arc v w ∧ Branch arc start (v :: path) w rest := by
  constructor
  · rintro (harc | ⟨harc, hstart, hnew, hcloses⟩)
    · exact ⟨_, harc, Or.inl ⟨rfl, rfl⟩⟩
    · exact ⟨_, harc, Or.inr ⟨_, rfl, hstart, hnew, hcloses⟩⟩
  · rintro ⟨w, harc, ⟨rfl, rfl⟩ | ⟨tail, rfl, hstart, hnew, hcloses⟩⟩
    · exact .close harc
    · exact .step harc hstart hnew hcloses

theorem Branch.unique {arc : Nat → Nat → Prop} {path rest : List Nat} {w w' : Nat}
    (h : Branch arc start path w rest) (h' : Branch arc start path w' rest) : w = w' := by
  rcases h with ⟨rfl, rfl⟩ | ⟨tail, rfl, -⟩ <;> rcases h' with ⟨rfl, h'⟩ | ⟨tail', h', -⟩
  · rfl
  · exact absurd h' (List.cons_ne_nil _ _).symm
  · exact absurd h' (List.cons_ne_nil _ _)
  · exact (List.cons.inj h').1

/-- The cycle that is listed for a way back from the end of a path. -/
def listing (start : Nat) (path rest : List Nat) : List Nat := path.reverse ++ rest ++ [start]

theorem listing_cons (path rest : List Nat) (w : Nat) :
    listing start (w :: path) rest = listing start path (w :: rest) := by
  simp [listing]

/-- From `s` the walk comes to `t` and lists the given ways behind `trail`, each once. Nothing that was
blocked is released, and none of it waits for a node that it did not wait for. -/
structure Lists (g : Graph) (start : Nat) (path trail : List Nat) (s t : CycleWalk)
    (rests : List (List Nat)) (ways : List Nat → Prop) : Prop where
  found : t.found.toList = s.found.toList ++ rests.map (listing start trail)
  blocked : ∀ x, x ∈ s.blocked → x ∈ t.blocked
  waiting : ∀ x y, y ∈ s.blocked → y ∈ t.waitersOf x → y ∈ s.waitersOf x
  blocks : Blocks g start path t
  nodup : rests.Nodup
  mem : ∀ rest, rest ∈ rests ↔ ways rest

section

variable {path : List Nat} {s₀ : CycleWalk} {step : Bool × CycleWalk → Nat → Option (Bool × CycleWalk)}

/-- One step of the loop over the successors lists the ways that branch off to `w`; if there is none, `w`
is blocked. -/
def StepLists (g : Graph) (start : Nat) (path : List Nat) (s₀ : CycleWalk)
    (step : Bool × CycleWalk → Nat → Option (Bool × CycleWalk)) (w : Nat) : Prop :=
  ∀ b s, Blocks g start path s → (∀ x, x ∈ s₀.blocked → x ∈ s.blocked) →
    ∃ t rests, step (b, s) w = some (b || !rests.isEmpty, t) ∧
      Lists g start path path s t rests (Branch g.Arc start path w) ∧
      (rests = [] → w ≠ start ∧ w ∈ t.blocked)

/-- The loop over the successors lists the ways that branch off to one of them. -/
theorem foldlM_lists (ws : List Nat) (hnodup : ws.Nodup)
    (hstep : ∀ w ∈ ws, StepLists g start path s₀ step w) (b : Bool) (s : CycleWalk)
    (hs : Blocks g start path s) (hsub : ∀ x, x ∈ s₀.blocked → x ∈ s.blocked) :
    ∃ t rests, ws.foldlM step (b, s) = some (b || !rests.isEmpty, t) ∧
      Lists g start path path s t rests (fun rest => ∃ w ∈ ws, Branch g.Arc start path w rest) ∧
      (rests = [] → ∀ w ∈ ws, w ≠ start ∧ w ∈ t.blocked) := by
  induction ws generalizing b s with
  | nil =>
    refine ⟨s, [], by simp, ⟨by simp, fun _ hx => hx, fun _ _ _ hy => hy, hs, List.nodup_nil, by simp⟩, ?_⟩
    exact fun _ w hw => absurd hw List.not_mem_nil
  | cons w ws ih =>
    obtain ⟨hw, hnodup⟩ := List.nodup_cons.mp hnodup
    obtain ⟨t, rests, hrun, hlists, hshut⟩ := hstep w List.mem_cons_self b s hs hsub
    obtain ⟨t', rests', hrun', hlists', hshut'⟩ :=
      ih hnodup (fun w hw => hstep w (List.mem_cons_of_mem _ hw)) (b || !rests.isEmpty) t hlists.blocks
        fun x hx => hlists.blocked x (hsub x hx)
    refine ⟨t', rests ++ rests', ?_, ⟨?_, ?_, ?_, hlists'.blocks, ?_, fun rest => ?_⟩, fun hnil => ?_⟩
    · rw [List.foldlM_cons, hrun]
      refine hrun'.trans ?_
      cases rests <;> simp
    · rw [hlists'.found, hlists.found, List.map_append, List.append_assoc]
    · exact fun x hx => hlists'.blocked x (hlists.blocked x hx)
    · exact fun x y hs hy => hlists.waiting x y hs (hlists'.waiting x y (hlists.blocked y hs) hy)
    · refine List.nodup_append'.mpr ⟨hlists.nodup, hlists'.nodup, fun rest hr hr' => ?_⟩
      obtain ⟨w', hw', hbranch⟩ := (hlists'.mem rest).mp hr'
      exact hw (((hlists.mem rest).mp hr).unique hbranch ▸ hw')
    · rw [List.mem_append, hlists.mem, hlists'.mem, List.exists_mem_cons_iff]
    · obtain ⟨hnil, hnil'⟩ := List.append_eq_nil_iff.mp hnil
      intro x hx
      rcases List.mem_cons.mp hx with rfl | hx
      · exact ⟨(hshut hnil).1, hlists'.blocked _ (hshut hnil).2⟩
      · exact hshut' hnil' x hx

end

/-- The step of the loop in `walk`, by what the walk does from the successor. -/
theorem stepLists_walk {path : List Nat} {s₀ : CycleWalk} {v w : Nat}
    (hwalk : ∀ s, Blocks g start (v :: path) s → (∀ x, x ∈ s₀.blocked → x ∈ s.blocked) → ¬ w ∈ s.blocked →
      ∃ t rests, walk g start (v :: path) w s = some (!rests.isEmpty, t) ∧
        Lists g start (v :: path) (w :: v :: path) s t rests (Closes g.Arc start (v :: path) w) ∧
        (rests = [] → w ∈ t.blocked)) :
    StepLists g start (v :: path) s₀
      (fun x w =>
        match x with
        | (closed, s) =>
          if w = start then
            some (true, { s with found := s.found.push (start :: v :: path).reverse })
          else if s.blocked.contains w then
            some (closed, s)
          else do
            let next ← walk g start (v :: path) w s
            return (closed || next.1, next.2)) w := by
  intro b s hs hsub
  dsimp only
  by_cases hw : w = start
  · rw [if_pos hw]
    refine ⟨{ s with found := s.found.push (start :: v :: path).reverse }, [[]],
      by rw [List.isEmpty_cons, Bool.not_false, Bool.or_true], ⟨by simp [listing], fun _ hx => hx, fun _ _ _ hy => hy,
      ⟨hs.onPath, hs.waiting, hs.shut⟩, List.nodup_singleton _, fun rest => ?_⟩,
      fun h => absurd h (List.cons_ne_nil _ _)⟩
    rw [List.mem_singleton]
    exact ⟨fun hnil => Or.inl ⟨hw, hnil⟩, fun h => h.elim And.right fun ⟨_, _, hne, _⟩ => absurd hw hne⟩
  rw [if_neg hw]
  by_cases hb : w ∈ s.blocked
  · rw [if_pos (show s.blocked.contains w = true from hb)]
    refine ⟨s, [], by simp, ⟨by simp, fun _ hx => hx, fun _ _ _ hy => hy, hs, List.nodup_nil,
      fun rest => ?_⟩, fun _ => ⟨hw, hb⟩⟩
    refine ⟨fun h => absurd h List.not_mem_nil, ?_⟩
    rintro (⟨h, -⟩ | ⟨tail, -, -, hnew, hcloses⟩)
    · exact absurd h hw
    · exact absurd hcloses (hs.not_closes (fun _ hx => hx) hb hnew)
  · rw [if_neg (show ¬ s.blocked.contains w = true from hb)]
    obtain ⟨t, rests, hrun, hlists, hshut⟩ := hwalk s hs hsub hb
    refine ⟨t, rests.map (w :: ·), ?_, ⟨?_, hlists.blocked, hlists.waiting, hlists.blocks,
      hlists.nodup.map (List.cons_injective), fun rest => ?_⟩,
      fun h => ⟨hw, hshut (List.map_eq_nil_iff.mp h)⟩⟩
    · rw [hrun]
      simp
    · rw [hlists.found, List.map_map]
      exact congrArg _ (List.map_congr_left fun rest _ => listing_cons _ rest w)
    · have hnew : w ∉ v :: path := fun h => hb (hs.onPath w h)
      constructor
      · intro hrest
        obtain ⟨tail, htail, rfl⟩ := List.mem_map.mp hrest
        exact Or.inr ⟨tail, rfl, hw, hnew, (hlists.mem tail).mp htail⟩
      · rintro (⟨h, -⟩ | ⟨tail, rfl, -, -, hcloses⟩)
        · exact absurd h hw
        · exact List.mem_map_of_mem ((hlists.mem tail).mpr hcloses)

namespace Lists

variable {path : List Nat} {s t t' : CycleWalk} {v : Nat} {rests : List (List Nat)} {ways : List Nat → Prop}

/-- The walk leaves a node with ways that close: what was blocked before the node does not wait for it, so
it stays blocked. -/
theorem release (h : Lists g start (v :: path) (v :: path) (s.block v) t rests ways)
    (hs : Blocks g start path s) (hfree : ¬ v ∈ s.blocked) (hloose : CycleWalk.Loosened v t t')
    (hv : ¬ v ∈ t'.blocked) (hempty : ∀ y, ¬ y ∈ t'.waitersOf v) :
    Lists g start path (v :: path) s t' rests ways := by
  have hblocked : ∀ x, x ∈ s.blocked → x ∈ t.blocked :=
    fun x hx => h.blocked x (CycleWalk.mem_blocked_block.mpr (Or.inr hx))
  have hwaiting : ∀ x y, y ∈ s.blocked → y ∈ t.waitersOf x → y ∈ s.waitersOf x :=
    fun x y hy => h.waiting x y (CycleWalk.mem_blocked_block.mpr (Or.inr hy))
  have hkept : ∀ x, x ∈ s.blocked → x ∈ t'.blocked :=
    hloose.kept (· ∈ s.blocked) hblocked hfree fun x y hy hyt => hs.waiting x y (hwaiting x y hy hyt)
  refine ⟨?_, hkept, fun x y hy hyt => hwaiting x y hy (hloose.waiting x y hyt), ?_, h.nodup, h.mem⟩
  · rw [hloose.found, h.found]
    rfl
  · exact h.blocks.release (fun x hx => hkept x (hs.onPath x hx)) hloose hv hempty

/-- The walk leaves a node without a way that closes: the node waits for its successors. -/
theorem await (h : Lists g start (v :: path) (v :: path) (s.block v) t rests ways) (hfree : ¬ v ∈ s.blocked)
    (hshut : ∀ w, g.Arc v w → w ≠ start ∧ w ∈ t.blocked) :
    Lists g start path (v :: path) s (t.await v (g.succsOf v).toList) rests ways := by
  obtain ⟨hfound, hsame, hwait⟩ := CycleWalk.await_spec v (g.succsOf v).toList t
  refine ⟨?_, fun x hx => ?_, fun x y hy hyt => ?_, ?_, h.nodup, h.mem⟩
  · rw [hfound, h.found]
    rfl
  · rw [hsame]
    exact h.blocked x (CycleWalk.mem_blocked_block.mpr (Or.inr hx))
  · have hyt := ((hwait x y).mp hyt).resolve_right fun hv => hfree (hv.2 ▸ hy)
    exact h.waiting x y (CycleWalk.mem_blocked_block.mpr (Or.inr hy)) hyt
  · exact h.blocks.await (fun hstart => (hshut start hstart).1 rfl) fun w hw => (hshut w hw).2

end Lists

/-- The nodes that are not blocked. -/
def free (g : Graph) (s : CycleWalk) : Finset Nat := ((IdSet.ofList g.keys).diff s.blocked).toFinset

theorem card_free_lt {s t : CycleWalk} {v : Nat} (hnode : v ∈ g.keys) (hfree : ¬ v ∈ s.blocked)
    (hsub : ∀ x, x ∈ (s.block v).blocked → x ∈ t.blocked) : (g.free t).card < (g.free s).card := by
  refine IdSet.card_toFinset_lt (i := v) (fun j hj => ?_) ?_ fun h => ?_
  · rw [IdSet.mem_diff] at hj ⊢
    exact ⟨hj.1, fun h => hj.2 (hsub j (CycleWalk.mem_blocked_block.mpr (Or.inr h)))⟩
  · exact (IdSet.mem_diff ..).mpr ⟨IdSet.mem_ofList.mpr hnode, hfree⟩
  · exact ((IdSet.mem_diff ..).mp h).2 (hsub v (CycleWalk.mem_blocked_block.mpr (Or.inl rfl)))

/-- The walk ends, and lists the ways from `v` back to the start, each once; if there is none, `v` stays
blocked. -/
theorem walk_spec (hg : g.Closed) (path : List Nat) (v : Nat) (s : CycleWalk) (hnode : v ∈ g.keys)
    (hs : Blocks g start path s) (hfree : ¬ v ∈ s.blocked) :
    ∃ t rests, walk g start path v s = some (!rests.isEmpty, t) ∧
      Lists g start path (v :: path) s t rests (Closes g.Arc start path v) ∧
      (rests = [] → v ∈ t.blocked) := by
  induction hn : (g.free s).card using Nat.strongRecOn generalizing path v s with
  | ind n ih =>
    subst hn
    have hsuccs : ∀ w, w ∈ (g.succsOf v).toList ↔ g.Arc v w := fun w => IdSet.mem_toList ..
    -- from a successor, `v` is one more blocked node
    have hstep : ∀ w ∈ (g.succsOf v).toList, StepLists g start (v :: path) (s.block v) _ w :=
      fun w hw => stepLists_walk fun t ht hsub hwfree => ih _ (card_free_lt hnode hfree hsub)
        (v :: path) w t (hg.arc v w ((hsuccs w).mp hw)).2 ht hwfree rfl
    obtain ⟨t, rests, hrun, hbranches, hshut⟩ := foldlM_lists (g.succsOf v).toList (IdSet.nodup_toList _)
      hstep false (s.block v) (hs.block v) fun _ hx => hx
    have hlists : Lists g start (v :: path) (v :: path) (s.block v) t rests (Closes g.Arc start path v) := by
      refine { hbranches with mem := fun rest => ?_ }
      rw [hbranches.mem, closes_iff_branch]
      exact exists_congr fun w => and_congr_left fun _ => hsuccs w
    rw [walk, hrun]
    by_cases hnil : rests = []
    · subst hnil
      have hawait := hlists.await hfree fun w hw => hshut rfl w ((hsuccs w).mpr hw)
      refine ⟨t.await v (g.succsOf v).toList, [], rfl, hawait, fun _ => ?_⟩
      rw [(CycleWalk.await_spec v _ t).2.1]
      exact hlists.blocks.onPath v List.mem_cons_self
    · have hclosed : (!rests.isEmpty) = true := by simpa using hnil
      obtain ⟨t', hrelease, hloose, hv, hempty⟩ := CycleWalk.release_spec t v
      refine ⟨t', rests, ?_, hlists.release hs hfree hloose hv hempty, fun h => absurd h hnil⟩
      simp only [Bool.false_or, hclosed, Option.bind_eq_bind, Option.bind_some, if_true, hrelease]
      rfl

end WholeProgram.Graph
