import MiniScheme.Store.Basic

namespace MiniScheme.Store

/-- The value behind `k` second slots, if there are that many pairs in a row. -/
def follow (s : Store) : Nat → Value → Option Value
  | 0, v => some v
  | k + 1, .pair p => s.follow k (s.second p)
  | _ + 1, .atom _ => none

/-- The value in the second slot of a pair. There is nothing behind an atom, so it stays. -/
def rest (s : Store) : Value → Value
  | .pair p => s.second p
  | .atom a => .atom a

/-- Two walkers on one chain, of which the fast one takes two pairs in a round, for at most `k`
rounds. The race is over when the fast walker comes to the end of the chain, or when both stand at
the same pair. -/
def raceWithin (s : Store) : Nat → Value → Value → Option Bool
  | 0, _, _ => none
  | k + 1, slow, fast =>
    if (s.rest fast).isPair then
      if (s.rest slow).isPair && s.rest slow == s.rest (s.rest fast) then some false
      else s.raceWithin k (s.rest slow) (s.rest (s.rest fast))
    else some (s.rest fast).isNil

/-- The empty list, and chains of pairs that end in it. A chain that comes back to one of its pairs
goes on for ever, but the walkers meet on it in no more rounds than there are pairs. -/
def isList (s : Store) (v : Value) : Bool := (s.raceWithin (s.pairs.size + 1) v v).getD false

def elementsWithin (s : Store) : Nat → Value → Option (List Value)
  | _, .atom a => if a = .nil then some [] else none
  | 0, .pair _ => none
  | k + 1, .pair p => (s.elementsWithin k (s.second p)).map (s.first p :: ·)

/-- The elements of a list. A chain that ends at all has at most the pairs of the store and a last
one outside it. -/
def elements? (s : Store) (v : Value) : Option (List Value) := s.elementsWithin (s.pairs.size + 1) v

end MiniScheme.Store
