import WholeProgram.Dataflow.Error
import WholeProgram.Log

/-!
# Outcomes of computations

What the result of a computation that may fail says about the computations that it was made of.

Most computations write messages but never read them, so that their outcome is the same from every
log they start with. `Yields` says what that outcome is, step by step along a computation.
-/

namespace WholeProgram

/-! ## Computations that may fail -/

variable {ε ε' α β : Type}

theorem bind_eq_ok {x : Except ε α} {f : α → Except ε β} {b : β} :
    x >>= f = .ok b ↔ ∃ a, x = .ok a ∧ f a = .ok b := by
  cases x with
  | error e => exact ⟨nofun, nofun⟩
  | ok a => exact ⟨fun h => ⟨a, rfl, h⟩, fun ⟨_, ha, h⟩ => Except.ok.inj ha ▸ h⟩

theorem map_eq_ok {x : Except ε α} {f : α → β} {b : β} : x.map f = .ok b ↔ ∃ a, x = .ok a ∧ f a = b := by
  cases x <;> simp [Except.map]

theorem mapError_eq_ok {x : Except ε α} {f : ε → ε'} {a : α} : x.mapError f = .ok a ↔ x = .ok a := by
  cases x with
  | error e => exact ⟨nofun, nofun⟩
  | ok b => exact ⟨fun h => congrArg _ (Except.ok.inj h), fun h => congrArg _ (Except.ok.inj h)⟩

/-! ## Logged computations -/

namespace Logged

/-- A function of the value of a logged computation is one of its outcome. -/
theorem start_map (c : Logged ε α) (f : α → β) :
    (Logged.start (do return f (← c))).1 = (Logged.start c).1.map f := by
  unfold Logged.start
  rw [bind_pure_comp, ExceptT.run_map]
  rfl

/-- A computation goes on with the value and the log of its first part, or stops with the error. -/
theorem run_bind (c : Logged ε α) (f : α → Logged ε β) (log : Log) :
    (ExceptT.run (c >>= f)).run log =
      match (ExceptT.run c).run log with
      | (.ok a, log) => (ExceptT.run (f a)).run log
      | (.error e, log) => (.error e, log) := by
  rw [ExceptT.run_bind, StateT.run_bind]
  rcases (ExceptT.run c).run log with ⟨e | a, log⟩ <;> rfl

/-- An error is caught with the log that there is. -/
theorem run_tryCatch (c : Logged ε α) (f : ε → Logged ε α) (log : Log) :
    (ExceptT.run (tryCatch c f)).run log =
      match (ExceptT.run c).run log with
      | (.ok a, log) => (.ok a, log)
      | (.error e, log) => (ExceptT.run (f e)).run log := by
  rw [ExceptT.run_tryCatch, StateT.run_bind]
  rcases (ExceptT.run c).run log with ⟨e | a, log⟩ <;> rfl

/-- The outcome of the computation, whatever was written before. -/
def Yields (c : Logged ε α) (r : Except ε α) : Prop := ∀ log, ((ExceptT.run c).run log).1 = r

namespace Yields

variable {c : Logged ε α} {f : α → Logged ε β} {a : α} {e : ε} {r : Except ε α} {q : Except ε β}

theorem start (h : c.Yields r) : c.start.1 = r := h #[]

theorem of_start {r' : Except ε α} (h : c.Yields r) (hstart : c.start.1 = r') : c.Yields r' :=
  (h.start.symm.trans hstart) ▸ h

theorem pure (a : α) : Yields (Pure.pure a : Logged ε α) (.ok a) := fun _ => rfl

theorem throw (e : ε) : Yields (MonadExcept.throw e : Logged ε α) (.error e) := fun _ => rfl

theorem say (level : LogLevel) (text : String) :
    Yields (Logged.say level text : Logged ε Unit) (.ok ()) := fun _ => rfl

theorem sayAll (log : Log) : Yields (Logged.sayAll log : Logged ε Unit) (.ok ()) := fun _ => rfl

theorem bind_ok (hc : c.Yields (.ok a)) (hf : (f a).Yields q) : Yields (c >>= f) q := by
  intro log
  have ha := hc log
  rw [run_bind]
  rcases hrun : (ExceptT.run c).run log with ⟨e | b, log'⟩
  · rw [hrun] at ha
    cases ha
  · rw [hrun] at ha
    cases ha
    exact hf log'

theorem bind_error (hc : c.Yields (.error e)) : Yields (c >>= f) (.error e) := by
  intro log
  have he := hc log
  rw [run_bind]
  rcases hrun : (ExceptT.run c).run log with ⟨d | b, log'⟩
  · rw [hrun] at he
    cases he
    rfl
  · rw [hrun] at he
    cases he

theorem map (hc : c.Yields r) (g : α → β) : Yields (do return g (← c)) (r.map g) := by
  cases r with
  | ok a => exact hc.bind_ok (pure _)
  | error e => exact hc.bind_error

end Yields

/-- From some log on, the computation has the value. -/
def Gives (c : Logged ε α) (a : α) : Prop := ∃ log log', (ExceptT.run c).run log = (.ok a, log')

theorem Yields.gives {c : Logged ε α} {a : α} (h : c.Yields (.ok a)) : c.Gives a :=
  ⟨#[], ((ExceptT.run c).run #[]).2, Prod.ext (h #[]) rfl⟩

namespace Gives

variable {c : Logged ε α} {f : α → Logged ε β} {a b : α} {e : ε}

theorem of_start (h : c.start.1 = .ok a) : c.Gives a :=
  ⟨#[], c.start.2, Prod.ext h rfl⟩

theorem eq_of_pure (h : Gives (Pure.pure a : Logged ε α) b) : a = b := by
  obtain ⟨log, log', h⟩ := h
  exact Except.ok.inj (Prod.mk.inj h).1

theorem not_throw : ¬ Gives (MonadExcept.throw e : Logged ε α) b := by
  rintro ⟨log, log', h⟩
  cases h

/-- Both parts of a computation with a value have values. -/
theorem bind {b : β} (h : Gives (c >>= f) b) : ∃ a, c.Gives a ∧ (f a).Gives b := by
  obtain ⟨log, log', h⟩ := h
  rw [run_bind] at h
  rcases hc : (ExceptT.run c).run log with ⟨e | a, log₁⟩
  · rw [hc] at h
    cases h
  · rw [hc] at h
    exact ⟨a, ⟨log, log₁, hc⟩, log₁, log', h⟩

end Gives

end Logged

/-- A part of an analysis has the value of the part, or its error with the name of the part. -/
theorem AnalysisError.inPart_yields {α : Type} {c : Logged AnalysisError α}
    {r : Except AnalysisError α} (what : String) (h : c.Yields r) :
    (inPart what c).Yields (r.mapError fun e => if e.isFault then e else .within what e) := by
  intro log
  have hr := h log
  unfold inPart
  rw [Logged.run_tryCatch]
  rcases hrun : (ExceptT.run c).run log with ⟨e | a, log'⟩
  · rw [hrun] at hr
    rw [← hr]
    rfl
  · rw [hrun] at hr
    rw [← hr]
    rfl

end WholeProgram
