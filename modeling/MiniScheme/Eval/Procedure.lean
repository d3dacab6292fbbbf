import MiniScheme.Eval.Arithmetic
import MiniScheme.Eval.Monad
import MiniScheme.Store.Chain

namespace MiniScheme

namespace Value

def toInteger : Value → Except Error Int64
  | integer n => .ok n
  | _ => .error .notANumber

def toPair : Value → Except Error Address
  | pair p => .ok p
  | _ => .error .notAPair

end Value

namespace Store

/-- The chain behind an index, which must not be negative nor lead past the last pair. -/
def listTail (s : Store) (v : Value) (index : Int64) : Except Error Value :=
  if index < 0 then .error (.badIndex index)
  else
    match s.follow index.toInt.toNat v with
    | some rest => .ok rest
    | none => .error (.badIndex index)

def listRef (s : Store) (v : Value) (index : Int64) : Except Error Value :=
  match s.listTail v index with
  | .ok (.pair p) => .ok (s.first p)
  | .ok _ => .error (.badIndex index)
  | .error e => .error e

end Store

def Predicate.holds (s : Store) : Predicate → Value → Bool
  | isPair, v => v.isPair
  | isNull, v => v.isNil
  | isList, v => s.isList v
  | isNumber, v => v.isNumber
  | isSymbol, v => v.isSymbol
  | isBoolean, v => v.isBoolean
  | isFalse, v => v.isFalse

namespace Procedure

open EvalM

def integersOf (arguments : List Value) : EvalM (List Int64) :=
  ofExcept (arguments.mapM Value.toInteger)

def run (p : Procedure) (arguments : List Value) : EvalM Value :=
  match p, arguments with
  | cons, [first, second] => update fun s ↦ s.cons first second
  | car, [v] => do
    let p ← ofExcept v.toPair
    inspect fun s ↦ s.first p
  | cdr, [v] => do
    let p ← ofExcept v.toPair
    inspect fun s ↦ s.second p
  | setCar, [v, new] => do
    let p ← ofExcept v.toPair
    update fun s ↦ (.nil, s.setFirst p new)
  | setCdr, [v, new] => do
    let p ← ofExcept v.toPair
    update fun s ↦ (.nil, s.setSecond p new)
  | list, elements => update fun s ↦ s.ofList elements .nil
  | listTail, [v, k] => do
    let index ← ofExcept k.toInteger
    ofExcept (← inspect fun s ↦ s.listTail v index)
  | listRef, [v, k] => do
    let index ← ofExcept k.toInteger
    ofExcept (← inspect fun s ↦ s.listRef v index)
  | add, arguments => do
    return .integer (Arithmetic.sum (← integersOf arguments))
  | multiply, arguments => do
    return .integer (Arithmetic.product (← integersOf arguments))
  | subtract, first :: others => do
    let x ← ofExcept first.toInteger
    return .integer (Arithmetic.difference x (← integersOf others))
  | divide, first :: others => do
    let x ← ofExcept first.toInteger
    let ys ← integersOf others
    return .integer (← ofExcept (Arithmetic.quotient x ys))
  | least, first :: others => do
    let x ← ofExcept first.toInteger
    return .integer (Arithmetic.least x (← integersOf others))
  | greatest, first :: others => do
    let x ← ofExcept first.toInteger
    return .integer (Arithmetic.greatest x (← integersOf others))
  | magnitude, [v] => do
    return .integer (← ofExcept v.toInteger).abs
  | compare c, arguments => do
    return .boolean (c.holdsAlong (← integersOf arguments))
  | test q, [v] => inspect fun s ↦ .boolean (q.holds s v)
  | p, arguments => halt (.malformedCall (.procedure p) arguments.length)

end Procedure

end MiniScheme
