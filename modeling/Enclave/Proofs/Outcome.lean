/-!
# Steps that may be refused

What it means that a run of steps came to its end, each of which may be refused: every step did, and
gave what the next one started from.

`Ends` says of a run both what holds of what it gives and what holds of why it is refused. A
function is described by one such fact, and a run of functions by theirs (`Ends.bind`), without
looking into any of them again.
-/

namespace Enclave

variable {ε α β : Type}

/-- A run of two steps ends as the second one does, on what the first one gave. -/
theorem bind_eq_ok_iff {x : Except ε α} {g : α → Except ε β} {b : β} :
    x >>= g = .ok b ↔ ∃ a, x = .ok a ∧ g a = .ok b := by
  cases x with
  | error e => simp [bind, Except.bind]
  | ok a => simp [bind, Except.bind]

theorem pure_eq_ok_iff {a b : α} : (pure a : Except ε α) = .ok b ↔ a = b := by
  simp [pure, Except.pure]

theorem mapError_eq_ok_iff {ε' : Type} {x : Except ε α} {f : ε → ε'} {a : α} :
    x.mapError f = .ok a ↔ x = .ok a := by
  cases x with
  | error e => exact iff_of_false nofun nofun
  | ok b => exact ⟨fun h => by cases h; rfl, fun h => by cases h; rfl⟩

/-- What is thrown does not go on. -/
theorem throw_bind_ne_ok {e : ε} {g : α → Except ε β} {b : β} : throw e >>= g ≠ .ok b := by
  simp [throw, throwThe, MonadExceptOf.throw, bind, Except.bind]

/-- What holds of what a run gives, and what of why it is refused. -/
structure Ends (run : Except ε α) (given : α → Prop) (refused : ε → Prop) : Prop where
  ok : ∀ a, run = .ok a → given a
  error : ∀ e, run = .error e → refused e

namespace Ends

variable {run : Except ε α} {given given' : α → Prop} {refused refused' : ε → Prop} {a : α} {e : ε}

protected theorem pure (h : given a) : Ends (pure a) given refused :=
  ⟨fun _ eq => by cases eq; exact h, nofun⟩

protected theorem throw (h : refused e) : Ends (throw e) given refused :=
  ⟨nofun, fun _ eq => by cases eq; exact h⟩

theorem imp (h : Ends run given refused) (ok : ∀ a, given a → given' a)
    (error : ∀ e, refused e → refused' e) : Ends run given' refused' :=
  ⟨fun a eq => ok a (h.ok a eq), fun e eq => error e (h.error e eq)⟩

theorem imp_given (h : Ends run given refused) (ok : ∀ a, given a → given' a) :
    Ends run given' refused := h.imp ok fun _ h => h

theorem imp_refused (h : Ends run given refused) (error : ∀ e, refused e → refused' e) :
    Ends run given refused' := h.imp (fun _ h => h) error

theorem bind {g : α → Except ε β} {given' : β → Prop} (first : Ends run given refused)
    (rest : ∀ a, given a → Ends (g a) given' refused) : Ends (run >>= g) given' refused := by
  cases run with
  | error e => exact ⟨nofun, fun _ eq => by cases eq; exact first.error e rfl⟩
  | ok a => exact rest a (first.ok a rfl)

/-- What is thrown ends the run. -/
theorem throw_bind {g : β → Except ε α} (h : refused e) : Ends (throw e >>= g) given refused := by
  have thrown : Ends (throw e : Except ε β) (fun _ => False) refused := .throw h
  exact thrown.bind nofun

/-- A run that nothing can refuse gives something. -/
theorem exists_ok (h : Ends run given fun _ => False) : ∃ a, run = .ok a ∧ given a := by
  cases run with
  | error e => exact (h.error e rfl).elim
  | ok a => exact ⟨a, rfl, h.ok a rfl⟩

/-- A test of all members of a list holds of each, or is refused for one of them. -/
theorem forM {l : List β} {test : β → Except ε Unit} {holds : β → Prop} {fails : β → ε → Prop}
    (each : ∀ b, Ends (test b) (fun _ => holds b) (fails b)) :
    Ends (l.forM test) (fun _ => ∀ b ∈ l, holds b) fun e => ∃ b ∈ l, fails b e := by
  induction l with
  | nil => exact .pure fun _ h => absurd h List.not_mem_nil
  | cons b l ih =>
    refine ((each b).imp_refused fun e h => ⟨b, List.mem_cons_self, h⟩).bind fun _ hb => ?_
    refine ih.imp (fun _ hl => List.forall_mem_cons.mpr ⟨hb, hl⟩) ?_
    rintro e ⟨c, hc, h⟩
    exact ⟨c, List.mem_cons_of_mem b hc, h⟩

end Ends

end Enclave
