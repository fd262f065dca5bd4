import WholeProgram.Proofs.Builder.Tables

/-!
# The index of a builder

Every operation of a builder that adds a variable, a method or a statement also writes into the index. What
the index says is what the bodies say:

* `Access`, `Stmt.access?` — the ways in which a statement goes through a variable, one for each table;
* `Index.Describes` — the tables of an index list the statements of the bodies, in order;
* `Describes.record` — noting down a statement that is added keeps that, whatever its form;
* `Builder.Made.described` — so every operation keeps it;
* `Builder.build_described`, `Builder.build_sealed` — and the program that is built has it, with an entry
  and an exit for every body.
-/

namespace WholeProgram

/-- The ways in which a statement goes through a variable. -/
inductive Access where
  | storeField | loadField | storeArray | loadArray | call
deriving DecidableEq, Repr

variable {τ υ : Type}

/-- How the statement goes through a variable, and through which. -/
def Stmt.access? : Stmt τ → Option (Access × VarId)
  | .storeField (some v) _ _ => some (.storeField, v)
  | .loadField _ (some v) _ => some (.loadField, v)
  | .storeArray v _ _ => some (.storeArray, v)
  | .loadArray _ v _ => some (.loadArray, v)
  | .invoke _ c => c.base.map (.call, ·)
  | _ => none

@[simp]
theorem Stmt.access?_mapTargets (f : τ → υ) (s : Stmt τ) : (s.mapTargets f).access? = s.access? := by
  cases s with
  | loadField x b | storeField b => cases b <;> rfl
  | _ => rfl

/-- The variable that a statement goes through is its base. -/
theorem Stmt.base?_eq_map_access? (s : Stmt τ) : s.base? = s.access?.map (·.2) := by
  cases s with
  | loadField x b | storeField b => cases b <;> rfl
  | invoke r c => cases h : c.base <;> simp [base?, access?, h]
  | _ => rfl

theorem Stmt.mem_mentions_of_access? {s : Stmt τ} {k : Access} {v : VarId} (h : s.access? = some (k, v)) :
    v ∈ s.mentions := by
  have hbase : s.base? = some v := by rw [base?_eq_map_access?, h]; rfl
  cases s <;> simp_all [mentions, uses, base?]

/-- The variable that the statement returns. -/
def Stmt.returned? : Stmt τ → Option VarId
  | .ret v => v
  | _ => none

@[simp]
theorem Stmt.returned?_mapTargets (f : τ → υ) (s : Stmt τ) : (s.mapTargets f).returned? = s.returned? := by
  cases s <;> rfl

namespace Access

/-- The table that notes down this kind of access. -/
def noted (k : Access) (x : VarIndex) : Array Site :=
  match k with
  | storeField => x.storeFields
  | loadField => x.loadFields
  | storeArray => x.storeArrays
  | loadArray => x.loadArrays
  | call => x.calls

/-- The view of a method that reads the same off its body. -/
def view (k : Access) (m : Method) (v : VarId) : List Nat :=
  match k with
  | storeField => m.storeFieldsOn v
  | loadField => m.loadFieldsOn v
  | storeArray => m.storeArraysOn v
  | loadArray => m.loadArraysOn v
  | call => m.callsOn v

theorem view_eq (k : Access) (m : Method) (v : VarId) :
    k.view m v = m.positions fun s => s.access? == some (k, v) := by
  cases k <;>
  · refine congrArg m.positions (funext fun s => ?_)
    cases s with
    | loadField x b | storeField b =>
      cases b <;> simp [Stmt.access?]
    | invoke r c => cases h : c.base <;> simp [Stmt.access?, h]
    | _ => simp [Stmt.access?]

end Access

/-! ## The positions of statements -/

/-- The positions of the statements that satisfy `q`, in order. -/
def positionsIn (code : Array (Stmt τ)) (q : Stmt τ → Bool) : List Nat :=
  (List.range code.size).filter fun i => code[i]?.any q

theorem mem_positionsIn {code : Array (Stmt τ)} {q : Stmt τ → Bool} {i : Nat} :
    i ∈ positionsIn code q ↔ ∃ s, code[i]? = some s ∧ q s = true := by
  simp only [positionsIn, List.mem_filter, List.mem_range, Option.any_eq_true]
  constructor
  · exact And.right
  · rintro ⟨s, hs, hq⟩
    exact ⟨lt_size_of_getElem? hs, s, hs, hq⟩

theorem positionsIn_push (code : Array (Stmt τ)) (s : Stmt τ) (q : Stmt τ → Bool) :
    positionsIn (code.push s) q = positionsIn code q ++ if q s then [code.size] else [] := by
  have hold : (List.range code.size).filter (fun i => (code.push s)[i]?.any q) =
      (List.range code.size).filter fun i => code[i]?.any q :=
    List.filter_congr fun i hi => by
      rw [Array.getElem?_push, if_neg (Nat.ne_of_lt (List.mem_range.mp hi))]
  rw [positionsIn, Array.size_push, List.range_succ, List.filter_append, hold, positionsIn]
  simp [List.filter_cons]

theorem positionsIn_map (code : Array (Stmt τ)) (f : τ → υ) {q : Stmt τ → Bool} {r : Stmt υ → Bool}
    (h : ∀ s, r (s.mapTargets f) = q s) : positionsIn (code.map (Stmt.mapTargets f)) r = positionsIn code q := by
  rw [positionsIn, Array.size_map, positionsIn]
  refine List.filter_congr fun i _ => ?_
  cases hi : code[i]? <;> simp [hi, h]

theorem Method.positions_eq (m : Method) (q : Stmt Nat → Bool) :
    m.positions q = positionsIn (m.body.map (·.stmt)) q := by
  simp [Method.positions, positionsIn, Method.stmt?]

/-! ## What an index says -/

/-- What is noted down about a body is what its statements say. -/
structure BodyIndex.Notes (t : BodyIndex) (code : Array (Stmt τ)) : Prop where
  indices : t.indices = (Array.range code.size).map Int.ofNat
  callSites : t.callSites.toList = positionsIn code fun s => s.call?.isSome
  returnVars : t.returnVars.toList = (code.toList.filterMap Stmt.returned?).eraseDups

/-- The index of a program with `n` variables and these bodies. Of the statements through a variable, those
of each method are listed in order. -/
structure Index.Describes (t : Index) (n : Nat) (bodies : Array (Array (Stmt τ))) : Prop where
  vars_size : t.vars.size = n
  bodies_size : t.bodies.size = bodies.size
  bases : ∀ code ∈ bodies, ∀ s ∈ code, ∀ k v, s.access? = some (k, v) → v < n
  notes : ∀ (m : MethodId) (x : BodyIndex) (code : Array (Stmt τ)), t.bodies[m]? = some x →
    bodies[m]? = some code → x.Notes code
  lists : ∀ (v : VarId) (x : VarIndex), t.vars[v]? = some x → ∀ (k : Access) (m : MethodId),
    (k.noted x).toList.filter (·.method == m) =
      (positionsIn (bodies[m]?.getD #[]) fun s => s.access? == some (k, v)).map (Site.mk m)

/-! ### A statement is added -/

/-- Only what is new counts when repetitions are left out. -/
theorem eraseDups_concat (l : List Nat) (v : Nat) :
    (l ++ [v]).eraseDups = if v ∈ l then l.eraseDups else l.eraseDups ++ [v] := by
  rw [List.eraseDups_append]
  by_cases hv : v ∈ l <;> simp [hv, List.removeAll, List.eraseDups_cons]

theorem BodyIndex.indices_record (t : BodyIndex) (i : Nat) (s : Stmt Label) :
    (t.record i s).indices = t.indices.push i := by
  unfold record
  dsimp only
  split
  · rfl
  · split <;> rfl
  · rfl

theorem BodyIndex.callSites_record (t : BodyIndex) (i : Nat) (s : Stmt Label) :
    (t.record i s).callSites = if s.call?.isSome then t.callSites.push i else t.callSites := by
  cases s with
  | ret v =>
    cases v with
    | none => rfl
    | some v => by_cases hv : v ∈ t.returnVars <;> simp [record, Stmt.call?, hv]
  | _ => rfl

theorem BodyIndex.returnVars_record (t : BodyIndex) (i : Nat) (s : Stmt Label) :
    (t.record i s).returnVars =
      s.returned?.elim t.returnVars fun v => if v ∈ t.returnVars then t.returnVars else t.returnVars.push v := by
  cases s with
  | ret v =>
    cases v with
    | none => rfl
    | some v => by_cases hv : v ∈ t.returnVars <;> simp [record, Stmt.returned?, hv]
  | _ => rfl

/-- A statement that is noted down last in the body is noted down as it is. -/
theorem BodyIndex.Notes.record {t : BodyIndex} {code : Array (Stmt Label)} (h : t.Notes code) (s : Stmt Label) :
    (t.record code.size s).Notes (code.push s) where
  indices := by
    rw [BodyIndex.indices_record, h.indices, Array.size_push, Array.range_succ, Array.map_append]
    simp
  callSites := by
    rw [BodyIndex.callSites_record, positionsIn_push, ← h.callSites]
    split <;> simp
  returnVars := by
    rw [BodyIndex.returnVars_record, Array.toList_push, List.filterMap_append]
    cases hs : s.returned? with
    | none => simpa [List.filterMap_cons, hs] using h.returnVars
    | some v =>
      have hv : v ∈ code.toList.filterMap Stmt.returned? ↔ v ∈ t.returnVars := by
        rw [← List.mem_eraseDups, ← h.returnVars, Array.mem_toList_iff]
      rw [show [s].filterMap Stmt.returned? = [v] by simp [hs], eraseDups_concat, Option.elim_some,
        ← h.returnVars]
      by_cases hmem : v ∈ t.returnVars <;> simp [hv, hmem]

/-- A statement through a variable is pushed to the table for its kind of access. -/
theorem Index.onVar_record {t : Index} {w : VarId} {f : VarIndex → VarIndex} {site : Site} {s : Stmt Label}
    {j : Access} (hs : s.access? = some (j, w))
    (hf : ∀ x (k : Access), k.noted (f x) = if k = j then (k.noted x).push site else k.noted x)
    {v : VarId} {y : VarIndex} (h : (t.onVar w f).vars[v]? = some y) :
    ∃ x, t.vars[v]? = some x ∧
      ∀ k : Access, k.noted y = if s.access? = some (k, v) then (k.noted x).push site else k.noted x := by
  obtain ⟨x, hx, rfl⟩ := getElem?_modify_eq_some.mp h
  refine ⟨x, hx, fun k => ?_⟩
  rw [hs]
  by_cases hw : w = v
  · subst hw
    simp [hf, eq_comm]
  · simp [hw]

/-- What is noted down about a variable when a statement is added: the statement, in the table for the way
in which it goes through the variable. -/
theorem Index.noted_record {t : Index} {site : Site} {s : Stmt Label} {v : VarId} {y : VarIndex}
    (h : (t.record site s).vars[v]? = some y) :
    ∃ x, t.vars[v]? = some x ∧
      ∀ k : Access, k.noted y = if s.access? = some (k, v) then (k.noted x).push site else k.noted x := by
  have hnone (hs : s.access? = none) (hy : t.vars[v]? = some y) : ∃ x, t.vars[v]? = some x ∧
      ∀ k : Access, k.noted y = if s.access? = some (k, v) then (k.noted x).push site else k.noted x :=
    ⟨y, hy, fun k => by rw [hs, if_neg (by simp)]⟩
  cases s with
  | storeField b f x =>
    cases b with
    | none => exact hnone rfl h
    | some w => exact onVar_record (t := t.onBody site.method _) rfl (fun x k => by cases k <;> rfl) h
  | loadField x b f =>
    cases b with
    | none => exact hnone rfl h
    | some w => exact onVar_record (t := t.onBody site.method _) rfl (fun x k => by cases k <;> rfl) h
  | storeArray w i x => exact onVar_record (t := t.onBody site.method _) rfl (fun x k => by cases k <;> rfl) h
  | loadArray x w i => exact onVar_record (t := t.onBody site.method _) rfl (fun x k => by cases k <;> rfl) h
  | invoke r c =>
    simp only [Index.record] at h
    cases hbase : c.base with
    | none =>
      rw [hbase] at h
      exact hnone (by simp [Stmt.access?, hbase]) h
    | some w =>
      rw [hbase] at h
      have hs : (Stmt.invoke (τ := Label) r c).access? = some (.call, w) := by simp [Stmt.access?, hbase]
      exact onVar_record (t := t.onBody site.method _) hs (fun x k => by cases k <;> rfl) h
  | _ => exact hnone rfl h

theorem Index.bodies_record (t : Index) (site : Site) (s : Stmt Label) :
    (t.record site s).bodies = t.bodies.modify site.method (·.record site.index s) := by
  cases s with
  | storeField b | loadField _ b => cases b <;> rfl
  | invoke r c =>
    simp only [Index.record]
    cases c.base <;> rfl
  | _ => rfl

theorem Index.vars_size_record (t : Index) (site : Site) (s : Stmt Label) :
    (t.record site s).vars.size = t.vars.size := by
  cases s with
  | storeField b | loadField _ b => cases b <;> simp [Index.record, onVar, onBody]
  | invoke r c =>
    simp only [Index.record]
    cases c.base <;> simp [onVar, onBody]
  | _ => simp [Index.record, onVar, onBody]

/-! ### The index of the bodies -/

namespace Index.Describes

variable {t : Index} {n : Nat} {bodies : Array (Array (Stmt τ))}

/-- A new variable, which no statement goes through yet. -/
theorem newVar (h : t.Describes n bodies) : Index.Describes { t with vars := t.vars.push {} } (n + 1) bodies where
  vars_size := by rw [Array.size_push, h.vars_size]
  bodies_size := h.bodies_size
  bases code hcode s hs k v hv := Nat.lt_succ_of_lt (h.bases code hcode s hs k v hv)
  notes := h.notes
  lists v x hx k m := by
    rcases getElem?_push_eq_some.mp hx with hx | ⟨rfl, rfl⟩
    · exact h.lists v x hx k m
    · have hnone : positionsIn (bodies[m]?.getD #[]) (fun s => s.access? == some (k, t.vars.size)) = [] := by
        refine List.eq_nil_iff_forall_not_mem.mpr fun i hi => ?_
        obtain ⟨s, hs, hk⟩ := mem_positionsIn.mp hi
        cases hm : bodies[m]? with
        | none => simp [hm] at hs
        | some code =>
          rw [hm] at hs
          have := h.bases code (Array.mem_of_getElem? hm) s (Array.mem_of_getElem? hs) k _ (beq_iff_eq.mp hk)
          rw [h.vars_size] at this
          exact absurd this (Nat.lt_irrefl n)
      rw [hnone]
      cases k <;> rfl

/-- A new method, whose body is empty. -/
theorem newBody (h : t.Describes n bodies) :
    Index.Describes { t with bodies := t.bodies.push {} } n (bodies.push #[]) where
  vars_size := h.vars_size
  bodies_size := by rw [Array.size_push, Array.size_push, h.bodies_size]
  bases code hcode s hs k v hv := by
    rcases Array.mem_push.mp hcode with hcode | rfl
    · exact h.bases code hcode s hs k v hv
    · simp at hs
  notes m x code hx hcode := by
    rcases getElem?_push_eq_some.mp hx with hx | ⟨rfl, rfl⟩
    · rcases getElem?_push_eq_some.mp hcode with hcode | ⟨rfl, -⟩
      · exact h.notes m x code hx hcode
      · exact absurd (lt_size_of_getElem? hx) (by rw [h.bodies_size]; exact Nat.lt_irrefl _)
    · rw [h.bodies_size, Array.getElem?_push_size] at hcode
      obtain rfl := Option.some.inj hcode
      exact ⟨by simp, rfl, rfl⟩
  lists v x hx k m := by
    have hbody : (bodies.push #[])[m]?.getD #[] = bodies[m]?.getD #[] := by
      rw [Array.getElem?_push]
      split
      · rename_i hm
        rw [hm, Array.getElem?_eq_none (Nat.le_refl _)]
        rfl
      · rfl
    rw [hbody]
    exact h.lists v x hx k m

/-- A statement comes last in its body. -/
theorem record {t : Index} {bodies : Array (Array (Stmt Label))} (h : t.Describes n bodies) {m : MethodId}
    {code : Array (Stmt Label)} (hcode : bodies[m]? = some code) {s : Stmt Label}
    (hs : ∀ k v, s.access? = some (k, v) → v < n) :
    (t.record { method := m, index := code.size } s).Describes n (bodies.modify m (·.push s)) where
  vars_size := by rw [Index.vars_size_record, h.vars_size]
  bodies_size := by rw [Index.bodies_record, Array.size_modify, Array.size_modify, h.bodies_size]
  bases code' hcode' a ha k v hv := by
    obtain ⟨i, hi⟩ := Array.mem_iff_getElem?.mp hcode'
    obtain ⟨old, hold, rfl⟩ := getElem?_modify_eq_some.mp hi
    split at ha
    · rcases Array.mem_push.mp ha with ha | rfl
      · exact h.bases old (Array.mem_of_getElem? hold) a ha k v hv
      · exact hs k v hv
    · exact h.bases old (Array.mem_of_getElem? hold) a ha k v hv
  notes i x' code' hx' hcode' := by
    rw [Index.bodies_record] at hx'
    obtain ⟨x, hx, rfl⟩ := getElem?_modify_eq_some.mp hx'
    obtain ⟨old, hold, rfl⟩ := getElem?_modify_eq_some.mp hcode'
    by_cases hm : m = i
    · subst hm
      obtain rfl : code = old := Option.some.inj (hcode.symm.trans hold)
      simpa using (h.notes m x code hx hold).record s
    · simpa [hm] using h.notes i x old hx hold
  lists v y hy k i := by
    obtain ⟨x, hx, hnoted⟩ := Index.noted_record hy
    have hold := h.lists v x hx k i
    by_cases hm : m = i
    · subst hm
      rw [hcode, Option.getD_some] at hold
      rw [hnoted, Array.getElem?_modify, if_pos rfl, hcode, Option.map_some, Option.getD_some, positionsIn_push,
        List.map_append, ← hold]
      by_cases hk : s.access? = some (k, v) <;> simp [hk]
    · rw [hnoted, Array.getElem?_modify, if_neg hm, ← hold]
      by_cases hk : s.access? = some (k, v) <;> simp [hk, hm]

/-- The entry and the exit of a body are not about its statements. -/
theorem onBody (h : t.Describes n bodies) (m : MethodId) {f : BodyIndex → BodyIndex}
    (hf : ∀ (x : BodyIndex) (code : Array (Stmt τ)), x.Notes code → (f x).Notes code) :
    (t.onBody m f).Describes n bodies where
  vars_size := h.vars_size
  bodies_size := by rw [Index.onBody, Array.size_modify, h.bodies_size]
  bases := h.bases
  notes i x' code hx' hcode := by
    obtain ⟨x, hx, rfl⟩ := getElem?_modify_eq_some.mp hx'
    split
    · exact hf x code (h.notes i x code hx hcode)
    · exact h.notes i x code hx hcode
  lists := h.lists

/-- Where the jumps of a body go makes no difference. -/
theorem mapTargets {bodies' : Array (Array (Stmt υ))} (h : t.Describes n bodies) (hsize : bodies'.size = bodies.size)
    (hbodies : ∀ (m : MethodId) (code : Array (Stmt τ)), bodies[m]? = some code →
      ∃ f : τ → υ, bodies'[m]? = some (code.map (Stmt.mapTargets f))) : t.Describes n bodies' := by
  have hback (m : MethodId) (code' : Array (Stmt υ)) (hcode' : bodies'[m]? = some code') :
      ∃ code, bodies[m]? = some code ∧ ∃ f : τ → υ, code' = code.map (Stmt.mapTargets f) := by
    have hlt : m < bodies.size := hsize ▸ lt_size_of_getElem? hcode'
    obtain ⟨f, hf⟩ := hbodies m _ (Array.getElem?_eq_getElem hlt)
    exact ⟨_, Array.getElem?_eq_getElem hlt, f, Option.some.inj (hcode'.symm.trans hf)⟩
  refine ⟨h.vars_size, h.bodies_size.trans hsize.symm, fun code' hcode' s' hs' k v hk => ?_,
    fun m x code' hx hcode' => ?_, fun v x hx k m => ?_⟩
  · obtain ⟨m, hm⟩ := Array.mem_iff_getElem?.mp hcode'
    obtain ⟨code, hcode, f, rfl⟩ := hback m code' hm
    obtain ⟨s, hs, rfl⟩ := Array.mem_map.mp hs'
    exact h.bases code (Array.mem_of_getElem? hcode) s hs k v (Stmt.access?_mapTargets f s ▸ hk)
  · obtain ⟨code, hcode, f, rfl⟩ := hback m code' hcode'
    have hnotes := h.notes m x code hx hcode
    constructor
    · rw [hnotes.indices, Array.size_map]
    · rw [hnotes.callSites, positionsIn_map code f fun s => by rw [Stmt.call?_mapTargets]]
    · rw [hnotes.returnVars, Array.toList_map, List.filterMap_map]
      congr 2
      exact funext fun s => (Stmt.returned?_mapTargets f s).symm
  · rw [h.lists v x hx k m]
    cases hcode : bodies[m]? with
    | none =>
      have hout : bodies'.size ≤ m := hsize ▸ Array.getElem?_eq_none_iff.mp hcode
      rw [Array.getElem?_eq_none hout]
      rfl
    | some code =>
      obtain ⟨f, hf⟩ := hbodies m code hcode
      rw [hf, Option.getD_some, Option.getD_some, positionsIn_map code f fun s => by rw [Stmt.access?_mapTargets]]

end Index.Describes

/-! ## Every operation keeps the index -/

namespace Builder

variable {b b' : Builder}

/-- The statements of the bodies, as they were added. -/
def bodies (b : Builder) : Array (Array (Stmt Label)) := b.drafts.map fun d => d.code.map (·.1)

/-- The index of the builder is that of its bodies. -/
def Described (b : Builder) : Prop := b.index.Describes b.vars.size b.bodies

theorem Described.congr (h : b.Described) (hindex : b'.index = b.index) (hvars : b'.vars.size = b.vars.size)
    (hbodies : b'.bodies = b.bodies) : b'.Described := by
  rw [Described, hindex, hvars, hbodies]
  exact h

theorem Described.fail (h : b.Described) (e : BuildError) : (b.fail e).Described := h.congr rfl rfl rfl

/-- A draft changes, but not its statements. -/
theorem Described.modify (h : b.Described) (m : MethodId) {f : Draft → Draft} (hf : ∀ d, (f d).code = d.code) :
    Described { b with drafts := b.drafts.modify m f } :=
  h.congr rfl rfl (map_modify_of_same fun d => by rw [hf])

theorem Described.implement (h : b.Described) (c i : ClassId) : (b.implement c i).Described := by
  unfold Builder.implement
  split
  · exact h.fail _
  · split <;> exact h.congr rfl rfl rfl

theorem Described.addClass (h : b.Described) (name : String) (form : ClassForm) (super : Option ClassId)
    (interfaces : List ClassId) : (b.addClass name form super interfaces).1.Described := by
  unfold Builder.addClass
  split
  · exact h.fail _
  · exact List.foldlRecOn interfaces _ (h.congr rfl rfl rfl) fun b hb i _ => hb.implement _ i

theorem Described.addField (h : b.Described) (c : ClassId) (name : String) (ty : Ty) (isStatic : Bool) :
    (b.addField c name ty isStatic).1.Described := by
  unfold Builder.addField
  split
  · exact h.fail _
  · exact h.congr rfl rfl rfl

theorem Described.ensureField (h : b.Described) (c : ClassId) (name : String) (ty : Ty) :
    (b.ensureField c name ty).1.Described := by
  unfold Builder.ensureField
  split
  · exact h
  · exact h.addField c name ty false

theorem Described.addVar (h : b.Described) (m : MethodId) (name : String) (ty : Ty) :
    (b.addVar m name ty).1.Described := by
  have hbodies : (b.addVar m name ty).1.bodies = b.bodies := by
    rw [Builder.bodies, Builder.addVar, map_modify_of_same, Builder.bodies]
    exact fun _ => rfl
  rw [Described, hbodies, show (b.addVar m name ty).1.vars.size = b.vars.size + 1 from Array.size_push _]
  exact h.newVar

theorem Described.addReceiver (h : b.Described) (m : MethodId) (c : ClassId) : (b.addReceiver m c).Described :=
  (h.addVar m "this" (.ref c)).modify m fun _ => rfl

theorem Described.addParam (h : b.Described) (m : MethodId) (q : String × Ty) : (b.addParam m q).Described :=
  (h.addVar m q.1 q.2).modify m fun _ => rfl

theorem Described.openMethod (h : b.Described) (header : Method) : (b.openMethod header).Described := by
  have hbodies : (b.openMethod header).bodies = b.bodies.push #[] := by
    simp [Builder.bodies]
  rw [Described, hbodies]
  exact h.newBody

theorem Described.addMethod (h : b.Described) (c : ClassId) (spec : MethodSpec) :
    (b.addMethod c spec).1.Described := by
  have hdeclare : (b.declare c spec).Described :=
    declare_induction (fun header _ _ _ => h.openMethod header) (fun _ hb => hb.addReceiver _ c)
      fun _ q hb => hb.addParam _ q
  rw [addMethod_eq]
  dsimp only
  split
  · exact hdeclare.fail _
  · exact hdeclare.congr rfl rfl rfl

/-- The statement that is added is noted down at the end of its body. -/
theorem Described.append (h : b.Described) (m : MethodId) {s : Stmt Label}
    (hs : ∀ k v, s.access? = some (k, v) → v < b.vars.size) : (b.append m s).Described := by
  have hbodies : (b.append m s).bodies = b.bodies.modify m (·.push s) := by
    refine Array.ext_getElem? fun k => ?_
    simp only [Builder.bodies, Builder.append, Array.getElem?_map, Array.getElem?_modify]
    split
    · cases b.drafts[k]? <;> simp [Draft.push]
    · rfl
  cases hd : b.drafts[m]? with
  | none =>
    -- there is no such method, and nothing is added
    have hout : b.bodies.size ≤ m := by
      rw [Builder.bodies, Array.size_map]
      exact Array.getElem?_eq_none_iff.mp hd
    refine h.congr (by simp [Builder.append, nextSite?, hd]) rfl (hbodies.trans ?_)
    refine Array.ext_getElem? fun k => ?_
    rw [Array.getElem?_modify]
    split
    · rename_i hk
      rw [← hk, Array.getElem?_eq_none hout]
      rfl
    · rfl
  | some d =>
    have hcode : b.bodies[m]? = some (d.code.map (·.1)) := by
      rw [Builder.bodies, Array.getElem?_map, hd]
      rfl
    have hindex : (b.append m s).index = b.index.record { method := m, index := (d.code.map (·.1)).size } s := by
      simp [Builder.append, nextSite?, hd]
    rw [Described, hbodies, hindex]
    exact Index.Describes.record h hcode hs

theorem Described.add (h : b.Described) (m : MethodId) {s : Stmt Label}
    (hs : ∀ v ∈ s.mentions, v < b.vars.size) : (b.add m s).Described := by
  have hbase : ∀ k v, s.access? = some (k, v) → v < b.vars.size :=
    fun k v hk => hs v (Stmt.mem_mentions_of_access? hk)
  unfold Builder.add
  dsimp only
  split
  · exact (h.fail _).append m hbase
  · exact h.append m hbase

/-- Every operation keeps the index that of the bodies. -/
theorem Made.described (h : Made b) : b.Described := by
  induction h with
  | empty => exact ⟨rfl, by simp [Builder.bodies], by simp [Builder.bodies], by simp, by simp⟩
  | implement c i _ ih => exact ih.implement c i
  | addClass name form super interfaces _ ih => exact ih.addClass name form super interfaces
  | addField c name ty isStatic _ ih => exact ih.addField c name ty isStatic
  | ensureField c name ty _ ih => exact ih.ensureField c name ty
  | addVar m name ty _ ih => exact ih.addVar m name ty
  | addMethod c spec _ ih => exact ih.addMethod c spec
  | newLabel m _ ih | bind m l _ ih | setPos m pos _ ih => exact ih.modify m fun _ => rfl
  | add m hs _ ih => exact ih.add m hs
  | addBranch hx hy hadd _ ih =>
    rcases addBranch_ok hadd with rfl | ⟨e, rfl⟩
    · exact ih.add _ (mentions_branch_lt hx hy)
    · exact (ih.fail e).add _ (mentions_branch_lt hx hy)
  | addSwitch m values targets default hv _ ih =>
    rcases addSwitch_eq _ m _ values targets default with heq | ⟨e, heq⟩ <;> rw [heq]
    · exact ih.add m (mentions_switch_lt hv)
    · exact (ih.fail e).add m (mentions_switch_lt hv)
  | setEntries ms _ ih => exact ih.congr rfl rfl rfl

/-! ## The finished program -/

/-- At the end of a body a `nop` may be added, and its entry and its exit are noted down. -/
theorem finish_eq_sealBody (b : Builder) (m : MethodId) :
    ∃ b₁ errors, (b₁ = b ∨ b₁ = b.append m .nop) ∧ b.finish m = { b₁.sealBody m with errors } := by
  have hfails (b₁ : Builder) (labels : Array (Option Nat)) :
      ∃ errors, ((List.range labels.size).foldl
        (fun b l => if (labels[l]?.join).isNone then b.fail (.unboundLabel (b.signature m) l) else b) b₁).sealBody m =
          { b₁.sealBody m with errors } := by
    obtain ⟨errors, heq, -⟩ := foldl_fail (List.range labels.size) (fun l => (labels[l]?.join).isNone)
      (fun b l => .unboundLabel (b.signature m) l) b₁
    exact ⟨errors, by rw [heq]; rfl⟩
  unfold finish
  dsimp only
  split
  · obtain ⟨errors, heq⟩ := hfails b ((b.drafts[m]?.map (·.labels)).getD #[])
    exact ⟨b, errors, Or.inl rfl, heq⟩
  · obtain ⟨added, hadd, -⟩ := add_eq b m .nop
    rw [hadd]
    obtain ⟨errors, heq⟩ := hfails _ _
    exact ⟨b.append m .nop, errors, Or.inr rfl, heq⟩

theorem Described.sealBody (h : b.Described) (m : MethodId) : (b.sealBody m).Described := by
  cases hd : b.nextSite? m with
  | none => exact h.congr (by simp [Builder.sealBody, hd]) rfl rfl
  | some site =>
    have hindex : (b.sealBody m).index =
        b.index.onBody m fun d => { d with entry := some (-1), exit := some site.index } := by
      simp [Builder.sealBody, hd]
    rw [Described, hindex]
    exact Index.Describes.onBody h m fun x code hx => ⟨hx.indices, hx.callSites, hx.returnVars⟩

theorem Described.finish (h : b.Described) (m : MethodId) : (b.finish m).Described := by
  obtain ⟨b₁, errors, hb₁, heq⟩ := finish_eq_sealBody b m
  rw [heq]
  rcases hb₁ with rfl | rfl
  · exact (h.sealBody m).congr rfl rfl rfl
  · exact ((h.append m (by simp [Stmt.access?])).sealBody m).congr rfl rfl rfl

/-- The entry and the exit of a body stand before and after its statements. -/
def Sealed (b : Builder) (m : MethodId) : Prop :=
  ∀ (x : BodyIndex) (d : Draft), b.index.bodies[m]? = some x → b.drafts[m]? = some d →
    x.entry = some (-1) ∧ x.exit = some (d.code.size : Int)

theorem sealed_sealBody (b : Builder) (m : MethodId) : (b.sealBody m).Sealed m := by
  intro x d hx hd
  have hsite : b.nextSite? m = some { method := m, index := d.code.size } := by
    rw [nextSite?, show b.drafts[m]? = some d from hd]
    rfl
  rw [sealBody, hsite] at hx
  obtain ⟨y, -, rfl⟩ := getElem?_modify_eq_some.mp hx
  rw [if_pos rfl]
  exact ⟨rfl, rfl⟩

/-- The end of another body changes nothing about this one. -/
theorem Sealed.finish {m k : MethodId} (h : b.Sealed m) (hk : k ≠ m) : (b.finish k).Sealed m := by
  obtain ⟨b₁, errors, hb₁, heq⟩ := finish_eq_sealBody b k
  have hsame : b₁.drafts[m]? = b.drafts[m]? ∧ b₁.index.bodies[m]? = b.index.bodies[m]? := by
    rcases hb₁ with rfl | rfl
    · exact ⟨rfl, rfl⟩
    · refine ⟨by rw [append, Array.getElem?_modify, if_neg hk], ?_⟩
      rw [append]
      cases hsite : b.nextSite? k with
      | none => rfl
      | some site =>
        obtain ⟨d, -, rfl⟩ := Option.map_eq_some_iff.mp hsite
        rw [Option.elim_some, Index.bodies_record, Array.getElem?_modify, if_neg hk]
  have hbodies : (b₁.sealBody k).index.bodies[m]? = b₁.index.bodies[m]? := by
    rw [sealBody]
    cases b₁.nextSite? k with
    | none => rfl
    | some site => rw [Option.elim_some, Index.onBody, Array.getElem?_modify, if_neg hk]
  intro x d hx hd
  rw [heq] at hx hd
  exact h x d (hsame.2 ▸ hbodies ▸ hx) (hsame.1 ▸ hd)

/-- After the ends of the first bodies these have an entry and an exit. -/
theorem sealed_foldl_finish (b : Builder) (n : Nat) : ∀ m < n, ((List.range n).foldl finish b).Sealed m := by
  induction n with
  | zero => nofun
  | succ n ih =>
    intro m hm
    rw [List.range_succ, List.foldl_append, List.foldl_cons, List.foldl_nil]
    by_cases hlt : m < n
    · exact (ih m hlt).finish (Nat.ne_of_gt hlt)
    · obtain rfl : m = n := by omega
      obtain ⟨b₁, errors, -, heq⟩ := finish_eq_sealBody ((List.range m).foldl finish b) m
      rw [heq]
      exact sealed_sealBody b₁ m

end Builder

/-- The statements of the methods. -/
def Program.bodies (p : Program) : Array (Array (Stmt Nat)) := p.methods.map fun m => m.body.map (·.stmt)

theorem Program.getD_bodies (p : Program) (m : MethodId) :
    p.bodies[m]?.getD #[] = (p.method m).body.map (·.stmt) := by
  rw [Program.bodies, Program.method, Array.getD_eq_getD_getElem?, Array.getElem?_map]
  cases p.methods[m]? with
  | none => exact Array.map_empty.symm
  | some d => rfl

/-- The table for a kind of access has the statements of the program that go through the variable in this
way. -/
theorem Index.Describes.mem_noted {p : Program} (h : p.index.Describes p.vars.size p.bodies) {v : VarId}
    {t : VarIndex} (ht : p.index.vars[v]? = some t) {k : Access} {site : Site} :
    site ∈ (k.noted t).toList ↔ ∃ s, p.stmt? site = some s ∧ s.access? = some (k, v) := by
  obtain ⟨m, i⟩ := site
  have hlist := h.lists v t ht k m
  rw [p.getD_bodies, ← Method.positions_eq] at hlist
  calc { method := m, index := i } ∈ (k.noted t).toList
    _ ↔ { method := m, index := i } ∈ (k.noted t).toList.filter (·.method == m) := by simp
    _ ↔ i ∈ (p.method m).positions fun s => s.access? == some (k, v) := by rw [hlist]; simp
    _ ↔ _ := by simp [Method.mem_positions, Program.stmt?]

/-- The places through a variable are those in its tables. -/
theorem Index.Describes.mem_sitesThrough {p : Program} (h : p.index.Describes p.vars.size p.bodies) {v : VarId}
    {t : VarIndex} (ht : p.index.vars[v]? = some t) {site : Site} :
    site ∈ p.sitesThrough v ↔ ∃ k : Access, site ∈ k.noted t := by
  simp only [Program.mem_sitesThrough, ← Array.mem_toList_iff, h.mem_noted ht, Stmt.base?_eq_map_access?,
    Option.map_eq_some_iff, Prod.exists, exists_eq_right]
  exact ⟨fun ⟨s, hs, k, hk⟩ => ⟨k, s, hs, hk⟩, fun ⟨k, s, hs, hk⟩ => ⟨s, hs, k, hk⟩⟩

namespace Builder

variable {b : Builder} {p : Program}

/-- The program has the index of the builder after the ends of all bodies. -/
theorem build_index (h : b.build = .ok p) :
    ∃ b', b' = (List.range b.drafts.size).foldl finish b ∧ p.index = b'.index ∧ p.vars = b'.vars ∧
      p.methods = b'.drafts.map Draft.toMethod := by
  refine ⟨_, rfl, ?_⟩
  unfold build at h
  dsimp only at h
  split at h
  · obtain rfl := Except.ok.inj h
    exact ⟨rfl, rfl, rfl⟩
  · cases h

/-- In a program that is built the index is that of the methods. -/
theorem build_described (hb : Made b) (h : b.build = .ok p) : p.index.Describes p.vars.size p.bodies := by
  obtain ⟨b', rfl, hindex, hvars, hmethods⟩ := build_index h
  have hall : ((List.range b.drafts.size).foldl Builder.finish b).Described :=
    List.foldlRecOn _ _ hb.described fun b hb m _ => hb.finish m
  rw [hindex, hvars]
  refine hall.mapTargets (by simp [Program.bodies, bodies, hmethods]) fun m code hcode => ?_
  rw [bodies, Array.getElem?_map] at hcode
  obtain ⟨d, hd, rfl⟩ := Option.map_eq_some_iff.mp hcode
  refine ⟨fun l => (d.labels[l]?.join).getD 0, ?_⟩
  simp [Program.bodies, hmethods, hd, Draft.toMethod, Function.comp_def]

/-- And every body has its entry before its statements and its exit after them. -/
theorem build_sealed (h : b.build = .ok p) {m : MethodId} {x : BodyIndex} (hm : m < p.methods.size)
    (hx : p.index.bodies[m]? = some x) : x.entry = some (-1) ∧ x.exit = some ((p.method m).body.size : Int) := by
  obtain ⟨b', rfl, hindex, -, hmethods⟩ := build_index h
  obtain ⟨errors, drafts, index, heq, hsize, -⟩ := foldl_finish_eq b b.drafts.size
  have hlt : m < ((List.range b.drafts.size).foldl Builder.finish b).drafts.size := by
    rwa [hmethods, Array.size_map] at hm
  have hd := Array.getElem?_eq_getElem hlt
  have hlt' : m < b.drafts.size := by rwa [heq, hsize] at hlt
  obtain ⟨hentry, hexit⟩ := sealed_foldl_finish b b.drafts.size m hlt' x _ (hindex ▸ hx) hd
  refine ⟨hentry, hexit.trans ?_⟩
  simp [Program.method, Array.getD_eq_getD_getElem?, hmethods, hd, Draft.toMethod]

end Builder

end WholeProgram
