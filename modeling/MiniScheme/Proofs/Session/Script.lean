import MiniScheme.CommandLine
import MiniScheme.Proofs.Session.Spelling
import MiniScheme.Proofs.Text.Lines

namespace MiniScheme

open Text

namespace Session

variable {session : Session} {depth : Nat} {verbosity : Verbosity} {lines : List String}

end Session

theorem Reply.unbroken_text {session : Session} {reply : Reply} (hk : session.Keeps .spelling)
    (h : session.Answers .spelling reply) : reply.text ≠ "" ∧ Unbroken reply.text := by
  rw [text]
  cases ha : reply.answer with
  | ok answer =>
    obtain ⟨v, hv, rfl⟩ := h.text answer ha
    exact ⟨Store.text_ne_empty hv, Store.unbroken_text hk.holds hv⟩
  | error e =>
    have hkind : Unbroken e.kind.describe := by cases e.kind <;> decide
    have hcolon : Unbroken ": " := by decide
    refine ⟨?_, (hkind.append hcolon).append (h.error e ha)⟩
    simp [Error.describe]

namespace Script

variable {session : Session} {depth : Nat} {text text' : String}

end Script

end MiniScheme
