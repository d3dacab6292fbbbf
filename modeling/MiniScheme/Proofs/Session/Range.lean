import MiniScheme.Proofs.Eval.Checked
import MiniScheme.Proofs.Eval.Scoping
import MiniScheme.Proofs.Session.Keep

namespace MiniScheme

namespace Eval

variable {depth : Nat} {verbosity : Verbosity} {s : Store} {b callee : Builtin}
  {arguments : List Value} {scope : Address} {received : Nat}

theorem applyBuiltin_ne_malformedCall :
    applyBuiltin (eval depth) b arguments scope verbosity s ≠
      .error (.malformedCall callee received) := by
  intro h
  have hk := Discipline.runs_applyBuiltin (Discipline.evaluates_eval depth)
    (holds_confining s scope) (b := b) (fun v (_ : v ∈ arguments) ↦ trivial) (.inl rfl)
  cases (hk verbosity).1 _ h

theorem answerText_ne_malformedCall {text : String} :
    answerText depth text scope verbosity s ≠ .error (.malformedCall callee received) := by
  intro h
  have ha (d : Datum) (hd : Datum.ofText text = .ok d) :
      (Discipline.confining s scope).KnownAtoms s d :=
    Discipline.knownAtoms_of_ofText hd fun _ ↦ trivial
  cases (Discipline.runs_answerText (holds_confining s scope) ha (.inl rfl) verbosity).1 _ h

end Eval

namespace Session

variable {session : Session} {depth : Nat} {verbosity : Verbosity} {line : String}
  {lines : List String} {callee : Builtin} {received : Nat} {halted : Halt}

theorem run_ne_malformedCall :
    session.run depth verbosity line ≠ .error (.malformedCall callee received) := by
  intro h
  rw [run] at h
  cases hr : Eval.answerText depth line session.global verbosity session.store with
  | error halted =>
    rw [hr] at h
    cases h
    exact Eval.answerText_ne_malformedCall hr
  | ok run =>
    rw [hr] at h
    cases h

theorem runAll_cons_eq_error (h : session.runAll depth verbosity (line :: lines) = .error halted) :
    session.run depth verbosity line = .error halted ∨
      ∃ reply next, session.run depth verbosity line = .ok (reply, next) ∧
        next.runAll depth verbosity lines = .error halted := by
  rw [runAll] at h
  rcases hr : session.run depth verbosity line with halted | ⟨reply, next⟩
  · rw [hr] at h
    cases h
    exact .inl rfl
  · rw [hr] at h
    change (next.runAll depth verbosity lines >>= fun x ↦ pure (reply :: x.1, x.2)) = _ at h
    refine .inr ⟨reply, next, rfl, ?_⟩
    cases hs : next.runAll depth verbosity lines with
    | error halted =>
      rw [hs] at h
      cases h
      rfl
    | ok answered =>
      rw [hs] at h
      cases h

theorem runAll_ne_malformedCall :
    session.runAll depth verbosity lines ≠ .error (.malformedCall callee received) := by
  induction lines generalizing session with
  | nil => exact fun h ↦ nomatch h
  | cons line lines ih =>
    intro h
    rcases runAll_cons_eq_error h with hr | ⟨reply, next, -, hs⟩
    · exact run_ne_malformedCall hr
    · exact ih hs

/-- Nothing that the interpreter is given takes it out of range. The lexer, which slices its text
and subtracts digits, and the built-ins, which take their arguments by place and divide, never ask
for a place, a difference or a quotient that there is not, so no session ends for want of one. -/
theorem runAll_in_range :
    (∀ lexer : Lexer, lexer.advance? = some lexer.advance) ∧
    (∀ arguments, Event.argumentsText? arguments = some (Event.argumentsText arguments)) ∧
    (∀ eval b arguments scope,
      Eval.applyChecked eval b arguments scope = Eval.applyBuiltin eval b arguments scope) ∧
    (∀ depth b arguments scope verbosity s callee received,
      Eval.applyChecked (Eval.eval depth) b arguments scope verbosity s ≠
        .error (.malformedCall callee received)) ∧
    ∀ (session : Session) depth verbosity lines callee received,
      session.runAll depth verbosity lines ≠ .error (.malformedCall callee received) := by
  refine ⟨Lexer.advance?_eq, Event.argumentsText?_eq, Eval.applyChecked_eq,
    fun depth b arguments scope verbosity s callee received ↦ ?_,
    fun session depth verbosity lines callee received ↦ runAll_ne_malformedCall⟩
  rw [Eval.applyChecked_eq]
  exact Eval.applyBuiltin_ne_malformedCall

end Session

end MiniScheme
