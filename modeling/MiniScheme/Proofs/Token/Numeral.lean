import MiniScheme.Proofs.Token.Stream
import MiniScheme.Proofs.Word
import MiniScheme.Store.Printer
import Mathlib.Data.Nat.Digits.Defs

namespace MiniScheme

open Text Lexeme

inductive Sign
  | absent
  | plus
  | minus

namespace Sign

def chars : Sign → List Char
  | absent => []
  | plus => ['+']
  | minus => ['-']

def apply : Sign → ℕ → ℤ
  | absent, n | plus, n => n
  | minus, n => -n

end Sign

/-- The number that digits write, each digit with the power of ten of its place. -/
def placeValue (digits : List Char) : ℕ :=
  Nat.ofDigits 10 (digits.reverse.map fun c ↦ c.toNat - '0'.toNat)

/-- A number written out: any number of digits, the first one counting most, perhaps with a sign in
front of them. -/
structure Numeral where
  sign : Sign
  digits : List Char
  ne_nil : digits ≠ []
  isDigit : ∀ c ∈ digits, c.isDigit = true

namespace Numeral

def text (numeral : Numeral) : String := String.ofList (numeral.sign.chars ++ numeral.digits)

/-- The exact number, without any bound. -/
def value (numeral : Numeral) : ℤ := numeral.sign.apply (placeValue numeral.digits)

/-- The numeral with more zeros between the sign and the digits. -/
def padded (numeral : Numeral) (zeros : ℕ) : Numeral where
  sign := numeral.sign
  digits := List.replicate zeros '0' ++ numeral.digits
  ne_nil := List.append_ne_nil_of_right_ne_nil _ numeral.ne_nil
  isDigit c hc := by
    rcases List.mem_append.1 hc with hz | hd
    · rw [List.eq_of_mem_replicate hz]
      rfl
    · exact numeral.isDigit c hd

end Numeral

theorem placeValue_cons (c : Char) (cs : List Char) :
    placeValue (c :: cs) = 10 ^ cs.length * (c.toNat - '0'.toNat) + placeValue cs := by
  simp [placeValue, Nat.ofDigits_append, Nat.add_comm]

theorem placeValue_zeros_append (zeros : ℕ) (digits : List Char) :
    placeValue (List.replicate zeros '0' ++ digits) = placeValue digits := by
  simp [placeValue]

/-- Taking the digits from the left, with ten times what came before, gives each of them the power
of ten of its place. -/
theorem decimal_eq_placeValue (digits : List Char) : decimal digits = placeValue digits := by
  induction digits with
  | nil => rfl
  | cons c cs ih =>
    rw [placeValue_cons, ← ih, decimal, decimal, Nat.ofDigitChars_cons,
      Nat.ofDigitChars_eq_ofDigitChars_zero]
    simp

namespace Numeral

variable (numeral : Numeral)

/-- A numeral is one lexeme, up to the next character that is not a digit. -/
theorem denotes :
    Denotes numeral.text.toList Char.isDigit (.constant (Int64.ofInt numeral.value)) := by
  obtain ⟨sign, digits, hne, hd⟩ := numeral
  rw [text, String.toList_ofList, value, ← decimal_eq_placeValue]
  cases sign with
  | absent => exact .digits hne hd
  | plus => exact .plus hne hd
  | minus => exact .minus hne hd

theorem value_padded (zeros : ℕ) : (numeral.padded zeros).value = numeral.value :=
  congrArg numeral.sign.apply (placeValue_zeros_append zeros numeral.digits)

theorem tokenize_congr {m n : Numeral} (h : m.value = n.value) :
    tokenize m.text = tokenize n.text := by
  rw [TokenStream.tokenize_lexeme m.denotes, TokenStream.tokenize_lexeme n.denotes, h]

end Numeral

theorem Store.tokenize_text_integer (s : Store) (n : Int64) :
    tokenize (s.text (.integer n)) = .ok [.constant n] :=
  TokenStream.tokenize_lexeme (denotes_integer n)

/-- A numeral of any length is one constant, up to the next character that is not a digit: the only
machine integer that is congruent to the exact value. Zeros in front of the digits and a plus sign
change nothing, and the written form of a machine integer is its constant again. -/
theorem tokenize_wraps_numerals :
    (∀ numeral : Numeral, ∃ n : Int64,
      (∀ k : ℤ, k = n.toInt ↔ -2 ^ 63 ≤ k ∧ k < 2 ^ 63 ∧ k ≡ numeral.value [ZMOD 2 ^ 64]) ∧
      tokenize numeral.text = .ok [.constant n] ∧
      ∀ rest : String, EndsRun Char.isDigit rest.toList →
        tokenize (numeral.text ++ rest) = (tokenize rest).map (.constant n :: ·)) ∧
    (∀ (numeral : Numeral) (zeros : ℕ),
      tokenize (numeral.padded zeros).text = tokenize numeral.text) ∧
    (∀ numeral : Numeral, tokenize { numeral with sign := .plus }.text =
      tokenize { numeral with sign := .absent }.text) ∧
    ∀ (s : Store) (n : Int64), tokenize (s.text (.integer n)) = .ok [.constant n] := by
  refine ⟨fun numeral ↦ ⟨Int64.ofInt numeral.value, ?_, ?_, fun rest hr ↦ ?_⟩,
    fun numeral zeros ↦ ?_, fun numeral ↦ ?_, Store.tokenize_text_integer⟩
  · exact (represents_ofInt numeral.value).eq_toInt_iff
  · exact TokenStream.tokenize_lexeme numeral.denotes
  · exact TokenStream.tokenize_lexeme_append numeral.denotes hr
  · exact Numeral.tokenize_congr (numeral.value_padded zeros)
  · exact Numeral.tokenize_congr rfl

/-- One below the least number, with a zero in front and a symbol behind it. -/
theorem tokenize_wraps_numerals_below_least :
    EndsRun Char.isDigit "x".toList ∧
      tokenize ("-09223372036854775809" ++ "x") = .ok [.constant Int64.maxValue, .symbol "x"] := by
  let numeral : Numeral :=
    ⟨.minus, "09223372036854775809".toList, by decide, List.all_eq_true.1 rfl⟩
  obtain ⟨n, hn, -, happ⟩ := tokenize_wraps_numerals.1 numeral
  have htext : numeral.text = "-09223372036854775809" := by decide
  have hvalue : numeral.value = -9223372036854775809 := by decide +kernel
  have hmax : Int64.maxValue = n := Int64.toInt_inj.1 ((hn _).2 (by rw [hvalue]; decide))
  subst hmax
  have hends : EndsRun Char.isDigit "x".toList := endsRun_cons.2 rfl
  have hsymbol : tokenize "x" = .ok [.symbol "x"] :=
    TokenStream.tokenize_lexeme (.symbol rfl (List.forall_mem_nil _))
  refine ⟨hends, ?_⟩
  rw [← htext, happ "x" hends, hsymbol]
  rfl

end MiniScheme
