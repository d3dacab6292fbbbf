import MiniScheme.Eval.Basic
import MiniScheme.Proofs.Store.Extend
import MiniScheme.Proofs.Store.FreshTree
import Mathlib

namespace MiniScheme.Eval

open EvalM Store

/-- Reads the one datum of a text into new pairs. -/
def readText (text : String) : EvalM Value := do
  let datum ← ofExcept ((Datum.ofText text).mapError .reading)
  update fun s ↦ s.load datum

theorem evalText_eq (depth : Nat) (text : String) (scope : Address) :
    evalText depth text scope = (do
      let expression ← readText text
      record .debug fun s ↦ .read (s.text expression)
      eval depth expression scope) := by
  rw [readText, bind_assoc]
  rfl

variable {s t : Store} {v : Value} {text : String} {d : Datum} {e : ReadError}
  {verbosity : Verbosity} {log : List Event}

end MiniScheme.Eval
