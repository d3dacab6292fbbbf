namespace MiniScheme

inductive Arity
  | between (low high : Nat)
  | atLeast (low : Nat)
  deriving DecidableEq, Repr

namespace Arity

def exactly (n : Nat) : Arity := between n n

def accepts : Arity → Nat → Bool
  | between low high, n => low ≤ n && n ≤ high
  | atLeast low, n => low ≤ n

def describe : Arity → String
  | between low high =>
    if low = high then "exactly " ++ toString low
    else "from " ++ toString low ++ " to " ++ toString high
  | atLeast low => "at least " ++ toString low

@[simp] theorem accepts_exactly {m n : Nat} : (exactly m).accepts n = true ↔ n = m := by
  simp only [exactly, accepts, Bool.and_eq_true, decide_eq_true_eq]
  omega

end Arity

/-- A call with a number of arguments that the callee does not take. -/
structure ArityMismatch where
  name : String
  expected : Arity
  received : Nat
  deriving DecidableEq, Repr

def ArityMismatch.message (mismatch : ArityMismatch) : String :=
  "When evaluating " ++ mismatch.name ++ " expected " ++ mismatch.expected.describe ++
    " arguments, but received " ++ toString mismatch.received ++ " arguments"

end MiniScheme
