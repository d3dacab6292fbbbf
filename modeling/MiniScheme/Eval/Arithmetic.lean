import MiniScheme.Error

namespace MiniScheme

namespace Arithmetic

def sum (xs : List Int64) : Int64 := xs.foldl (· + ·) 0

def product (xs : List Int64) : Int64 := xs.foldl (· * ·) 1

/-- The first number less all others, or its negation if there are no others. -/
def difference (x : Int64) : List Int64 → Int64
  | [] => -x
  | ys => ys.foldl (· - ·) x

/-- Division towards zero; it wraps for the least number and minus one. -/
def divide (x y : Int64) : Except Error Int64 :=
  if y = 0 then .error .divisionByZero else .ok (x / y)

/-- The first number divided by each of the others in turn, or its inverse if there are none. -/
def quotient (x : Int64) : List Int64 → Except Error Int64
  | [] => divide 1 x
  | ys => ys.foldlM divide x

def least (x : Int64) (ys : List Int64) : Int64 := ys.foldl min x

def greatest (x : Int64) (ys : List Int64) : Int64 := ys.foldl max x

end Arithmetic

namespace Comparison

def holds : Comparison → Int64 → Int64 → Bool
  | less, x, y => x < y
  | atMost, x, y => x ≤ y
  | greater, x, y => x > y
  | atLeast, x, y => x ≥ y
  | equal, x, y => x == y

def holdsAlong (c : Comparison) : List Int64 → Bool
  | x :: y :: rest => c.holds x y && c.holdsAlong (y :: rest)
  | _ => true

end Comparison

end MiniScheme
