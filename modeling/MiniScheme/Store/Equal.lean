import MiniScheme.Store.Basic

namespace MiniScheme.Store

/-- Equality of two values as trees, down to `k` pairs. A pair is always equal to itself. -/
def equalWithin (s : Store) : Nat → Value → Value → Bool
  | _, .atom a, .atom b => a == b
  | k + 1, .pair p, .pair q =>
    p == q || (s.equalWithin k (s.first p) (s.first q) && s.equalWithin k (s.second p) (s.second q))
  | 0, .pair p, .pair q => p == q
  | _, _, _ => false

/-- Equality of two values as trees. Where no pair contains itself, no way down is longer than the
number of pairs. -/
def equal (s : Store) (v w : Value) : Bool := s.equalWithin (s.pairs.size + 1) v w

end MiniScheme.Store
