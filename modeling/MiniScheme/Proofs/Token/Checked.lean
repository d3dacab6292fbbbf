import MiniScheme.Proofs.Token.Stream

namespace MiniScheme

/-- A list from a place on, if it reaches that far. -/
def sliceFrom? {α : Type} (xs : List α) (start : Nat) : Option (List α) :=
  if start ≤ xs.length then some (xs.drop start) else none

theorem sliceFrom?_cons_one {α : Type} (x : α) (xs : List α) :
    sliceFrom? (x :: xs) 1 = some xs := by
  simp [sliceFrom?]

theorem sliceFrom?_append {α : Type} (xs ys : List α) :
    sliceFrom? (xs ++ ys) xs.length = some ys := by
  simp [sliceFrom?]

namespace Lexeme

/-- The distance of a character from the first digit, if it does not come before it. -/
def digitValue? (c : Char) : Option Int64 :=
  if '0'.toNat ≤ c.toNat then some (digitValue c) else none

def digitsValue? (digits : List Char) : Option Int64 :=
  digits.foldlM (fun value c ↦ (digitValue? c).map (value * 10 + ·)) 0

/-- The value of a constant, whose sign is cut off by a slice. -/
def constantValue? (lexeme : List Char) : Option Int64 :=
  match lexeme.head? with
  | some '-' => do return -(← digitsValue? (← sliceFrom? lexeme 1))
  | some '+' => do digitsValue? (← sliceFrom? lexeme 1)
  | _ => digitsValue? lexeme

end Lexeme

/-- The token of a lexeme, if no character of a constant comes before the digits. -/
def Token.ofLexeme? (lexeme : List Char) : Option Token :=
  match lexeme.head?.bind Punctuation.ofChar? with
  | some p => some (.punctuation p)
  | none =>
    if Lexeme.isConstant lexeme then (Lexeme.constantValue? lexeme).map .constant
    else some (.symbol (String.ofList lexeme))

namespace Lexer

open Lexeme Text

/-- The next lexer, with the text after the lexeme as a slice of the text before it. There is none
if an index or a subtraction is out of range. -/
def advance? (lexer : Lexer) : Option (Except LexError Lexer) :=
  let blanks := lexer.rest.takeWhile isBlank
  match lexer.rest.dropWhile isBlank with
  | [] => some (.ok ⟨none, []⟩)
  | c :: text =>
    match split? (c :: text) with
    | some (lexeme, _) => do
      let rest ← sliceFrom? lexer.rest (blanks.length + lexeme.length)
      let token ← Token.ofLexeme? lexeme
      return .ok ⟨some token, rest⟩
    | none => some (.error (.unexpectedCharacter c))

end Lexer

namespace Lexeme

variable {lexeme ds : List Char} {longer : Char → Bool} {token : Token}

theorem digitsValue?_eq (hd : ∀ c ∈ ds, c.isDigit = true) :
    digitsValue? ds = some (digitsValue ds) := by
  have hfold (value : Int64) :
      ds.foldlM (fun v c ↦ (digitValue? c).map (v * 10 + ·)) value =
        some (ds.foldl (fun v c ↦ v * 10 + digitValue c) value) := by
    induction ds generalizing value with
    | nil => rfl
    | cons c ds ih =>
      obtain ⟨hc, hds⟩ := List.forall_mem_cons.1 hd
      have hdigit : digitValue? c = some (digitValue c) := if_pos (toNat_of_isDigit hc).1
      rw [List.foldlM_cons, hdigit]
      exact ih hds _
  exact hfold 0

/-- Constants have nothing in them but digits and perhaps a sign in front. -/
theorem Denotes.constantValue?_eq (h : Denotes lexeme longer token)
    (hk : isConstant lexeme = true) : constantValue? lexeme = some (constantValue lexeme) := by
  cases h with
  | punctuation p => cases p <;> cases hk
  | digits hne hd =>
    obtain ⟨c, cs, rfl⟩ := List.exists_cons_of_ne_nil hne
    have hc := hd c List.mem_cons_self
    rw [constantValue_of_isDigit hc, ← digitsValue?_eq hd, constantValue?]
    split
    · next hs => cases hs; cases hc
    · next hs => cases hs; cases hc
    · rfl
  | plus hne hd | minus hne hd =>
    simp [constantValue?, sliceFrom?_cons_one, digitsValue?_eq hd, constantValue]
  | symbol hc hi =>
    rw [isConstant_cons_of_isSymbolStart hc] at hk
    cases hk
  | @sign c hc => rcases isSign_iff.1 hc with rfl | rfl <;> cases hk

theorem Denotes.ofLexeme?_eq (h : Denotes lexeme longer token) :
    Token.ofLexeme? lexeme = some (Token.ofLexeme lexeme) := by
  rw [Token.ofLexeme?, Token.ofLexeme]
  cases lexeme.head?.bind Punctuation.ofChar? with
  | some p => rfl
  | none =>
    by_cases hk : isConstant lexeme = true
    · simp [hk, h.constantValue?_eq hk]
    · simp [hk]

end Lexeme

/-- Whatever the text, the lexer stays in range. -/
theorem Lexer.advance?_eq (lexer : Lexer) : lexer.advance? = some lexer.advance := by
  have ht : lexer.rest.takeWhile Text.isBlank ++ lexer.rest.dropWhile Text.isBlank = lexer.rest :=
    List.takeWhile_append_dropWhile
  rw [advance?, advance]
  generalize lexer.rest.takeWhile Text.isBlank = blanks at ht ⊢
  cases hb : lexer.rest.dropWhile Text.isBlank with
  | nil => rfl
  | cons c text =>
    rw [hb] at ht
    cases hs : Lexeme.split? (c :: text) with
    | none => simp [hs]
    | some parts =>
      obtain ⟨lexeme, rest⟩ := parts
      obtain ⟨happ, longer, hd, -⟩ := Lexeme.split?_eq_some_iff.1 hs
      have hrest : sliceFrom? lexer.rest (blanks.length + lexeme.length) = some rest := by
        rw [← ht, ← happ, ← List.append_assoc, ← List.length_append]
        exact sliceFrom?_append _ _
      simp [hs, hrest, hd.ofLexeme?_eq]

end MiniScheme
