import WholeProgram.Proofs.Builder.Tables

/-!
# The bodies of a builder

What the calls of a builder keep about its bodies: the statements of a method are those that calls added,
in order, a label stands for the statement that comes after its last binding, and statements mention
variables and labels of their own method.
-/

namespace WholeProgram

namespace Builder

variable {b b' : Builder} {ops : List Operation} {o : Operation} {m : MethodId} {d d' : Draft}

/-- The body of a method is what the sequence says. -/
structure Follows (ops : List Operation) (m : MethodId) (d : Draft) : Prop where
  code : d.code.toList.map (·.1) = statements ops m
  place : ∀ l t, d.place? l = some t ↔ LastBound ops m l t
  waits : d.Waits

/-- All bodies are what the sequence says, and are about their own variables and labels. -/
structure Bodies (ops : List Operation) (b : Builder) : Prop where
  follows : ∀ (m : MethodId) (d : Draft), b.drafts[m]? = some d → Follows ops m d
  suits : ∀ m, ∀ s ∈ statements ops m, b.Suits m s
  bound : ∀ m l t, LastBound ops m l t → b.HasLabel m l

/-! ## Nothing is lost -/

theorem Effect.owns (he : Effect b o b') {v : VarId} (h : b.Owns m v) : b'.Owns m v := by
  cases he with
  | addClass => exact h.congr same_addClass.2
  | implement c i => exact h.congr (implement_same b c i).2
  | @addMethod c spec =>
    refine Owns.congr (b := b.declare c spec) ?_ rfl
    exact declare_induction (P := fun b₁ => b₁.Owns m v) (fun _ _ _ _ => h.congr rfl)
      (fun b₁ hb₁ => hb₁.addVar "this" (.ref c)) fun b₁ q hb₁ => hb₁.addVar q.1 q.2
  | addVar k name ty => exact h.addVar name ty
  | _ => exact h.congr rfl

/-- Drafts stay, with their labels. -/
theorem Effect.exists_draft (he : Effect b o b') (hd : b.drafts[m]? = some d) :
    ∃ d', b'.drafts[m]? = some d' ∧ d.labels.size ≤ d'.labels.size := by
  cases he with
  | addClass =>
    rw [same_addClass.1]
    exact ⟨d, hd, Nat.le_refl _⟩
  | implement c i =>
    rw [(implement_same b c i).1]
    exact ⟨d, hd, Nat.le_refl _⟩
  | addField | hasField | ensureField | setEntries => exact ⟨d, hd, Nat.le_refl _⟩
  | @addMethod c spec =>
    obtain ⟨header, -, -, -, hmap⟩ :=
      map_drafts_declare (g := fun d => d.labels.size) (fun _ _ _ _ => rfl) b c spec
    have hsize : ((b.declare c spec).drafts.map fun d => d.labels.size)[m]? = some d.labels.size := by
      rw [hmap, getElem?_push_eq_some]
      exact Or.inl (by rw [Array.getElem?_map, hd]; rfl)
    rw [Array.getElem?_map] at hsize
    obtain ⟨d', hd', heq⟩ := Option.map_eq_some_iff.mp hsize
    exact ⟨d', hd', Nat.le_of_eq heq.symm⟩
  | addVar k | newLabel k | bind k | setPos k | @add _ k =>
    refine ⟨_, getElem?_modify_eq_some.mpr ⟨d, hd, rfl⟩, ?_⟩
    split
    · simp
    · exact Nat.le_refl _

theorem Effect.hasLabel (he : Effect b o b') {l : Label} (h : b.HasLabel m l) : b'.HasLabel m l := by
  obtain ⟨d, hd, hl⟩ := h
  obtain ⟨d', hd', hsize⟩ := he.exists_draft hd
  exact ⟨d', hd', Nat.lt_of_lt_of_le hl hsize⟩

theorem Effect.suits (he : Effect b o b') {s : Stmt Label} (h : b.Suits m s) : b'.Suits m s where
  method := by
    obtain ⟨d', hd', -⟩ := he.exists_draft (Array.getElem?_eq_getElem h.method)
    exact lt_size_of_getElem? hd'
  vars v hv := he.owns (h.vars v hv)
  labels l hl := he.hasLabel (h.labels l hl)

/-! ## Calls that are about no body -/

/-- The body is the same, but for labels that are not bound yet. -/
structure SameBody (d d' : Draft) : Prop where
  code : d'.code = d.code
  pending : d'.pending = d.pending
  labels : ∀ l : Nat, (d'.labels[l]?).join = (d.labels[l]?).join
  size : d.labels.size ≤ d'.labels.size

theorem SameBody.refl (d : Draft) : SameBody d d := ⟨rfl, rfl, fun _ => rfl, Nat.le_refl _⟩

theorem Follows.same (h : Follows ops m d) (hsame : SameBody d d') : Follows ops m d' where
  code := hsame.code ▸ h.code
  place l t := by
    rw [Draft.place?, hsame.code, hsame.pending, hsame.labels]
    exact h.place l t
  waits l hl := Nat.lt_of_lt_of_le (h.waits l (hsame.pending ▸ hl)) hsame.size

/-- A new label is not bound. -/
theorem sameBody_newLabel (d : Draft) : SameBody d { d with labels := d.labels.push none } := by
  refine ⟨rfl, rfl, fun l => ?_, by simp⟩
  rw [Array.getElem?_push]
  split
  · rename_i hl
    rw [hl, Array.getElem?_eq_none (Nat.le_refl _)]
    rfl
  · rfl

theorem sameBody_of_map {drafts drafts' : Array Draft}
    (hmap : drafts'.map (fun d => (d.code, d.labels, d.pending)) = drafts.map fun d => (d.code, d.labels, d.pending))
    (hd' : drafts'[m]? = some d') : ∃ d, drafts[m]? = some d ∧ SameBody d d' := by
  have hbody := congrArg (·[m]?) hmap
  simp only [Array.getElem?_map, hd', Option.map_some] at hbody
  obtain ⟨d, hd, heq⟩ := Option.map_eq_some_iff.mp hbody.symm
  obtain ⟨hcode, hrest⟩ := Prod.mk.inj heq
  obtain ⟨hlabels, hpending⟩ := Prod.mk.inj hrest
  exact ⟨d, hd, hcode.symm, hpending.symm, fun l => by rw [hlabels],
    Nat.le_of_eq (congrArg Array.size hlabels)⟩

/-- A call that adds no statement and binds no label leaves all bodies the same; a new one is empty. -/
theorem Effect.same_body (he : Effect b o b') (hstatement : o.statement? = none)
    (hbind : ∀ k l, o ≠ .bind k l) (hd' : b'.drafts[m]? = some d') :
    (∃ d, b.drafts[m]? = some d ∧ SameBody d d') ∨ m = b.drafts.size ∧ SameBody { header := d'.header } d' := by
  cases he with
  | addClass => exact Or.inl ⟨d', same_addClass.1 ▸ hd', .refl d'⟩
  | implement c i => exact Or.inl ⟨d', (implement_same b c i).1 ▸ hd', .refl d'⟩
  | addField | hasField | ensureField | setEntries => exact Or.inl ⟨d', hd', .refl d'⟩
  | @addMethod c spec =>
    obtain ⟨header, -, -, -, hmap⟩ :=
      map_drafts_declare (g := fun d => (d.code, d.labels, d.pending)) (fun _ _ _ _ => rfl) b c spec
    have hpush : (b.declare c spec).drafts.map (fun d => (d.code, d.labels, d.pending)) =
        (b.drafts.push { header }).map fun d => (d.code, d.labels, d.pending) := by
      rw [hmap, Array.map_push]
    obtain ⟨d, hd, hsame⟩ := sameBody_of_map hpush hd'
    rcases getElem?_push_eq_some.mp hd with hd | ⟨rfl, rfl⟩
    · exact Or.inl ⟨d, hd, hsame⟩
    · exact Or.inr ⟨rfl, hsame.code, hsame.pending, hsame.labels, hsame.size⟩
  | addVar k =>
    obtain ⟨d, hd, rfl⟩ := getElem?_modify_eq_some.mp hd'
    refine Or.inl ⟨d, hd, ?_⟩
    split <;> exact ⟨rfl, rfl, fun _ => rfl, Nat.le_refl _⟩
  | newLabel k =>
    obtain ⟨d, hd, rfl⟩ := getElem?_modify_eq_some.mp hd'
    refine Or.inl ⟨d, hd, ?_⟩
    split
    · exact sameBody_newLabel d
    · exact .refl d
  | setPos k =>
    obtain ⟨d, hd, rfl⟩ := getElem?_modify_eq_some.mp hd'
    refine Or.inl ⟨d, hd, ?_⟩
    split <;> exact ⟨rfl, rfl, fun _ => rfl, Nat.le_refl _⟩
  | bind k l => exact absurd rfl (hbind k l)
  | add ho => cases hstatement.symm.trans ho

theorem Follows.quiet (h : Follows ops m d) (hstatement : o.statement? = none)
    (hbind : ∀ k l, o ≠ .bind k l) : Follows (ops ++ [o]) m d where
  code := by rw [statements_concat, hstatement]; simpa using h.code
  place l t := by rw [lastBound_concat (hbind m l)]; exact h.place l t
  waits := h.waits

/-- Nothing has been said about a method that is not there. -/
theorem Bodies.follows_new (h : Bodies ops b) (header : Method) :
    Follows ops b.drafts.size { header } where
  code := by
    cases hs : statements ops b.drafts.size with
    | nil => rfl
    | cons s rest =>
      have := (h.suits _ s (hs ▸ List.mem_cons_self)).method
      exact absurd this (Nat.lt_irrefl _)
  place l t := by
    refine ⟨fun hplace => by simp [Draft.place?] at hplace, fun hbound => ?_⟩
    obtain ⟨d, hd, -⟩ := h.bound _ l t hbound
    exact absurd (lt_size_of_getElem? hd) (Nat.lt_irrefl _)
  waits := nofun

/-! ## Calls that are about a body -/

theorem Follows.push (h : Follows ops m d) {s : Stmt Label} (hs : o.statement? = some (m, s)) :
    Follows (ops ++ [o]) m (d.push s) where
  code := by
    rw [statements_concat, hs, ← h.code]
    simp [Draft.push]
  place l t := by
    have ho : o ≠ .bind m l := by
      rintro rfl
      cases hs
    rw [Draft.place?_push (h.waits l), lastBound_concat ho]
    exact h.place l t
  waits := Draft.waits_push s

/-- A statement of another method. -/
theorem Follows.other (h : Follows ops m d) {k : MethodId} {s : Stmt Label} (hs : o.statement? = some (k, s))
    (hk : k ≠ m) : Follows (ops ++ [o]) m d where
  code := by
    rw [statements_concat, hs]
    simpa [hk] using h.code
  place l t := by
    have ho : o ≠ .bind m l := by
      rintro rfl
      cases hs
    rw [lastBound_concat ho]
    exact h.place l t
  waits := h.waits

theorem length_statements (h : Follows ops m d) : (statements ops m).length = d.code.size := by
  rw [← h.code, List.length_map, Array.length_toList]

theorem Follows.bind (h : Follows ops m d) {l : Label} (hl : l < d.labels.size) :
    Follows (ops ++ [.bind m l]) m { d with pending := l :: d.pending } where
  code := by rw [statements_concat]; simpa [Operation.statement?] using h.code
  place j t := by
    by_cases hj : j = l
    · subst hj
      rw [lastBound_concat_bind, length_statements h, Draft.place?, if_pos List.mem_cons_self, Option.some.injEq]
    · have ho : Operation.bind m l ≠ .bind m j := by
        rintro ⟨⟩
        exact hj rfl
      rw [lastBound_concat ho, ← h.place j t]
      simp [Draft.place?, hj]
  waits j hj := by
    rcases List.mem_cons.mp hj with rfl | hj
    · exact hl
    · exact h.waits j hj

/-- A label of another method is bound. -/
theorem Follows.bind_other (h : Follows ops m d) {k : MethodId} {l : Label} (hk : k ≠ m) :
    Follows (ops ++ [.bind k l]) m d where
  code := by rw [statements_concat]; simpa [Operation.statement?] using h.code
  place j t := by
    have ho : Operation.bind k l ≠ .bind m j := by
      rintro ⟨⟩
      exact hk rfl
    rw [lastBound_concat ho]
    exact h.place j t
  waits := h.waits

theorem Effect.follows (he : Effect b o b') (hfits : o.Fits b) (h : Bodies ops b)
    (hd' : b'.drafts[m]? = some d') : Follows (ops ++ [o]) m d' := by
  have hquiet : o.statement? = none → (∀ k l, o ≠ .bind k l) → Follows (ops ++ [o]) m d' := by
    intro hstatement hbind
    rcases he.same_body hstatement hbind hd' with ⟨d, hd, hsame⟩ | ⟨rfl, hsame⟩
    · exact ((h.follows m d hd).same hsame).quiet hstatement hbind
    · exact ((h.follows_new d'.header).same hsame).quiet hstatement hbind
  cases he with
  | bind k l =>
    obtain ⟨d, hd, rfl⟩ := getElem?_modify_eq_some.mp hd'
    split
    · rename_i hk
      subst hk
      obtain ⟨e, he, hl⟩ := hfits
      obtain rfl : e = d := Option.some.inj (he.symm.trans hd)
      exact (h.follows k e hd).bind hl
    · rename_i hk
      exact (h.follows m d hd).bind_other hk
  | @add _ k s ho =>
    obtain ⟨d, hd, rfl⟩ := getElem?_modify_eq_some.mp hd'
    split
    · rename_i hk
      subst hk
      exact (h.follows k d hd).push ho
    · rename_i hk
      exact (h.follows m d hd).other ho hk
  | _ => exact hquiet rfl nofun

theorem Effect.bodies (he : Effect b o b') (hfits : o.Fits b) (h : Bodies ops b) : Bodies (ops ++ [o]) b' where
  follows m d' hd' := he.follows hfits h hd'
  suits m s hs := by
    rw [statements_concat] at hs
    rcases List.mem_append.mp hs with hs | hs
    · exact he.suits (h.suits m s hs)
    · cases ho : o.statement? with
      | none => simp [ho] at hs
      | some q =>
        obtain ⟨k, s'⟩ := q
        obtain ⟨rfl, rfl⟩ : k = m ∧ s' = s := by simpa [ho, eq_comm] using hs
        exact he.suits (hfits.suits ho)
  bound m l t hbound := by
    by_cases ho : o = .bind m l
    · subst ho
      exact he.hasLabel hfits
    · exact he.hasLabel (h.bound m l t ((lastBound_concat ho).mp hbound))

end Builder

end WholeProgram
