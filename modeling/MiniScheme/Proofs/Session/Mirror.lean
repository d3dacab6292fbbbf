import MiniScheme.Proofs.Eval.Alike
import MiniScheme.Proofs.Eval.Frame
import MiniScheme.Proofs.Session.Keep

namespace MiniScheme

theorem Datum.plain_of_ofText {text : String} {d : Datum} (h : Datum.ofText text = .ok d) :
    d.Plain := by
  have hk := Discipline.knownAtoms_of_ofText (D := .framing .empty fun _ ↦ False) (s := .empty) h
    fun name n hn ↦ by cases hn
  clear h
  induction d with
  | cons first second ih ih' => exact ⟨ih hk.1, ih' hk.2⟩
  | atom a =>
    rintro c rfl
    rcases hk _ rfl with hfalse | ⟨hnot, hcontains⟩
    · exact hfalse
    · exact hnot hcontains

namespace Session

open Store

variable {M : Correspondence} {session session' : Session}

/-- Two sessions whose scopes correspond answer a line alike, and what corresponds does so after it
as well. -/
theorem run_agrees (h : Mirrors M session.store session'.store)
    (hg : M (.scope session.global) (.scope session'.global)) (depth : Nat)
    (verbosity : Verbosity) (line : String) :
    Agrees (fun answered answered' ↦ answered.1 = answered'.1 ∧
        answered.2.global = session.global ∧ answered'.2.global = session'.global ∧
        ∃ N, Advances M session.store session'.store N answered.2.store answered'.2.store)
      (session.run depth verbosity line) (session'.run depth verbosity line) := by
  have hs := simulates_answerText depth line (fun d ↦ Datum.plain_of_ofText) h hg verbosity
  rw [Session.run, Session.run]
  generalize Eval.answerText depth line session.global verbosity session.store = x,
    Eval.answerText depth line session'.global verbosity session'.store = y at hs
  cases hs with
  | error halted => exact .error halted
  | @ok run run' hrun =>
    obtain ⟨hlog, N, hN, hresult⟩ := hrun
    have hreply : run.result = run'.result := eq_of_agrees hresult
    refine .ok ⟨?_, rfl, rfl, N, hN⟩
    dsimp only
    rw [hreply, hlog]

theorem replies_runAll_cons (session : Session) (depth : Nat) (verbosity : Verbosity)
    (line : String) (lines : List String) :
    (session.runAll depth verbosity (line :: lines)).map Prod.fst =
      (session.run depth verbosity line).bind fun answered ↦
        ((answered.2.runAll depth verbosity lines).map Prod.fst).map (answered.1 :: ·) := by
  rw [runAll]
  rcases session.run depth verbosity line with halted | ⟨reply, next⟩
  · rfl
  · change (next.runAll depth verbosity lines >>= fun x ↦ pure (reply :: x.1, x.2)).map Prod.fst =
      ((next.runAll depth verbosity lines).map Prod.fst).map (reply :: ·)
    rcases next.runAll depth verbosity lines with halted | ⟨replies, last⟩ <;> rfl

/-- Two sessions whose scopes correspond answer all lines alike. -/
theorem replies_runAll_eq (h : Mirrors M session.store session'.store)
    (hg : M (.scope session.global) (.scope session'.global)) (depth : Nat)
    (verbosity : Verbosity) (lines : List String) :
    (session.runAll depth verbosity lines).map Prod.fst =
      (session'.runAll depth verbosity lines).map Prod.fst := by
  induction lines generalizing M session session' with
  | nil => rfl
  | cons line lines ih =>
    have hr := run_agrees h hg depth verbosity line
    rw [replies_runAll_cons, replies_runAll_cons]
    generalize session.run depth verbosity line = x, session'.run depth verbosity line = y at hr
    cases hr with
    | error halted => rfl
    | @ok answered answered' hanswered =>
      obtain ⟨hreply, hglobal, hglobal', N, hN⟩ := hanswered
      have hnext : N (.scope answered.2.global) (.scope answered'.2.global) := by
        rw [hglobal, hglobal']
        exact hN.le _ _ hg
      change ((answered.2.runAll depth verbosity lines).map Prod.fst).map (answered.1 :: ·) =
        ((answered'.2.runAll depth verbosity lines).map Prod.fst).map (answered'.1 :: ·)
      rw [ih hN.mirrors hnext, hreply]

end Session

end MiniScheme
