import MiniScheme.Datum.Basic

namespace MiniScheme

/-- What expressions are and what they evaluate to: an atom, or a pair in the store. -/
inductive Value
  | atom (a : Atom)
  | pair (p : Address)
  deriving DecidableEq, Repr

namespace Value

@[match_pattern] abbrev nil : Value := atom .nil

@[match_pattern] abbrev integer (n : Int64) : Value := atom (.integer n)

@[match_pattern] abbrev symbol (name : String) : Value := atom (.symbol name)

@[match_pattern] abbrev builtin (b : Builtin) : Value := atom (.builtin b)

@[match_pattern] abbrev closure (address : Address) : Value := atom (.closure address)

/-- Truth values are two symbols. -/
def boolean (b : Bool) : Value := symbol (if b then "#t" else "#f")

def isPair : Value → Bool
  | pair _ => true
  | _ => false

def isNil : Value → Bool
  | nil => true
  | _ => false

def isNumber : Value → Bool
  | integer _ => true
  | _ => false

def isSymbol : Value → Bool
  | symbol _ => true
  | _ => false

def isBoolean (v : Value) : Bool := v == boolean true || v == boolean false

def isFalse (v : Value) : Bool := v == boolean false

/-- Every value but one counts as true. -/
def isTrue (v : Value) : Bool := !v.isFalse

end Value

structure Pair where
  first : Value
  second : Value
  deriving DecidableEq, Repr

/-- A procedure of the program: the body is evaluated in a new scope inside the one given. -/
structure Closure where
  parameters : List String
  body : List Value
  scope : Address
  deriving DecidableEq, Repr

def Closure.arity (c : Closure) : Arity := .exactly c.parameters.length

/-- The values of the names of a scope; a name occurs at most once. -/
abbrev Bindings := List (String × Value)

/-- A scope and the addresses of the scopes around it, from the nearest to the outermost. -/
structure Scope where
  bindings : Bindings
  outer : List Address
  deriving DecidableEq, Repr

/-- Everything that has an identity. Pairs, closures and scopes are only ever added; slots and
bindings change. -/
structure Store where
  pairs : Array Pair
  closures : Array Closure
  scopes : Array Scope
  deriving DecidableEq, Repr

namespace Store

def empty : Store := ⟨#[], #[], #[]⟩

/-- A pair outside the store holds the empty list twice. -/
def pair (s : Store) (p : Address) : Pair := s.pairs[p]?.getD ⟨.nil, .nil⟩

def first (s : Store) (p : Address) : Value := (s.pair p).first

def second (s : Store) (p : Address) : Value := (s.pair p).second

def closure (s : Store) (c : Address) : Closure := s.closures[c]?.getD ⟨[], [], 0⟩

def scope (s : Store) (e : Address) : Scope := s.scopes[e]?.getD ⟨[], []⟩

def arity? (s : Store) : Value → Option Arity
  | .builtin b => some b.arity
  | .closure c => some (s.closure c).arity
  | _ => none

def cons (s : Store) (first second : Value) : Value × Store :=
  (.pair s.pairs.size, { s with pairs := s.pairs.push ⟨first, second⟩ })

def setFirst (s : Store) (p : Address) (v : Value) : Store :=
  { s with pairs := s.pairs.modify p fun c ↦ { c with first := v } }

def setSecond (s : Store) (p : Address) (v : Value) : Store :=
  { s with pairs := s.pairs.modify p fun c ↦ { c with second := v } }

def newClosure (s : Store) (c : Closure) : Value × Store :=
  (.closure s.closures.size, { s with closures := s.closures.push c })

/-- The elements in new pairs, in a chain that ends in the given tail. -/
def ofList (s : Store) : List Value → Value → Value × Store
  | [], tail => (tail, s)
  | v :: vs, tail =>
    let (rest, s) := s.ofList vs tail
    s.cons v rest

/-- A datum with a new pair for each of its branches. -/
def load (s : Store) : Datum → Value × Store
  | .atom a => (.atom a, s)
  | .cons first second =>
    let (first, s) := s.load first
    let (second, s) := s.load second
    s.cons first second

theorem lt_size_of_second_eq_pair {s : Store} {p q : Address} (h : s.second p = .pair q) :
    p < s.pairs.size := by
  by_cases hp : p < s.pairs.size
  · exact hp
  · simp [second, pair, hp] at h

theorem lt_size_of_first_eq_pair {s : Store} {p q : Address} (h : s.first p = .pair q) :
    p < s.pairs.size := by
  by_cases hp : p < s.pairs.size
  · exact hp
  · simp [first, pair, hp] at h

theorem pair_cons_of_lt {s : Store} {p : Address} (v w : Value) (h : p < s.pairs.size) :
    (s.cons v w).2.pair p = s.pair p := by
  simp [pair, cons, Array.getElem?_push, Nat.ne_of_lt h]

theorem pair_cons_size (s : Store) (v w : Value) : (s.cons v w).2.pair s.pairs.size = ⟨v, w⟩ := by
  simp [pair, cons]

theorem pair_setFirst_of_ne {s : Store} {p q : Address} (v : Value) (h : q ≠ p) :
    (s.setFirst p v).pair q = s.pair q := by
  simp [pair, setFirst, Array.getElem?_modify, h.symm]

theorem pair_setFirst_self {s : Store} {p : Address} (v : Value) (h : p < s.pairs.size) :
    (s.setFirst p v).pair p = ⟨v, s.second p⟩ := by
  simp [pair, second, setFirst, Array.getElem_modify, h]

theorem pair_setSecond_of_ne {s : Store} {p q : Address} (v : Value) (h : q ≠ p) :
    (s.setSecond p v).pair q = s.pair q := by
  simp [pair, setSecond, Array.getElem?_modify, h.symm]

theorem pair_setSecond_self {s : Store} {p : Address} (v : Value) (h : p < s.pairs.size) :
    (s.setSecond p v).pair p = ⟨s.first p, v⟩ := by
  simp [pair, first, setSecond, Array.getElem_modify, h]

theorem setFirst_of_size_le {s : Store} {p : Address} (v : Value) (h : s.pairs.size ≤ p) :
    s.setFirst p v = s := by
  rw [setFirst]
  congr 1
  apply Array.ext
  · rw [Array.size_modify]
  · intro i _ hi
    rw [Array.getElem_modify, if_neg (Nat.ne_of_gt (Nat.lt_of_lt_of_le hi h))]

theorem setSecond_of_size_le {s : Store} {p : Address} (v : Value) (h : s.pairs.size ≤ p) :
    s.setSecond p v = s := by
  rw [setSecond]
  congr 1
  apply Array.ext
  · rw [Array.size_modify]
  · intro i _ hi
    rw [Array.getElem_modify, if_neg (Nat.ne_of_gt (Nat.lt_of_lt_of_le hi h))]

theorem pair_setFirst (s : Store) (p q : Address) (v : Value) :
    (s.setFirst p v).pair q = ⟨v, s.second q⟩ ∨ (s.setFirst p v).pair q = s.pair q := by
  by_cases hq : q = p
  · subst hq
    rcases Nat.lt_or_ge q s.pairs.size with hlt | hge
    · exact .inl (pair_setFirst_self v hlt)
    · exact .inr (by rw [setFirst_of_size_le v hge])
  · exact .inr (pair_setFirst_of_ne v hq)

theorem pair_setSecond (s : Store) (p q : Address) (v : Value) :
    (s.setSecond p v).pair q = ⟨s.first q, v⟩ ∨ (s.setSecond p v).pair q = s.pair q := by
  by_cases hq : q = p
  · subst hq
    rcases Nat.lt_or_ge q s.pairs.size with hlt | hge
    · exact .inl (pair_setSecond_self v hlt)
    · exact .inr (by rw [setSecond_of_size_le v hge])
  · exact .inr (pair_setSecond_of_ne v hq)

theorem second_setFirst (s : Store) (p q : Address) (v : Value) :
    (s.setFirst p v).second q = s.second q := by
  rcases s.pair_setFirst p q v with he | he
  · rw [second, he]
  · rw [second, he, second]

theorem first_setSecond (s : Store) (p q : Address) (v : Value) :
    (s.setSecond p v).first q = s.first q := by
  rcases s.pair_setSecond p q v with he | he
  · rw [first, he]
  · rw [first, he, first]

end Store

end MiniScheme
