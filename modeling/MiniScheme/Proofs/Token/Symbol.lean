import MiniScheme.Proofs.Token.Cut
import MiniScheme.Builtin.Basic

namespace MiniScheme

namespace Lexeme

/-- The lexer takes the whole name for one lexeme, and the lexeme for a symbol. -/
def IsSymbol (name : String) : Prop :=
  split? name.toList = some (name.toList, []) ∧ Token.ofLexeme name.toList = .symbol name

instance (name : String) : Decidable (IsSymbol name) := inferInstanceAs (Decidable (_ ∧ _))

variable {lexeme : List Char} {longer : Char → Bool} {token : Token} {name : String} {c : Char}

theorem Denotes.toList_eq (h : Denotes lexeme longer (.symbol name)) : name.toList = lexeme := by
  cases h <;> exact String.toList_ofList

theorem isSymbol_iff_denotes :
    IsSymbol name ↔ ∃ longer, Denotes name.toList longer (.symbol name) := by
  constructor
  · intro h
    obtain ⟨hs, ht⟩ := h
    obtain ⟨-, longer, hd, -⟩ := split?_eq_some_iff.1 hs
    exact ⟨longer, ht ▸ hd⟩
  · intro h
    obtain ⟨longer, hd⟩ := h
    have ht := ofLexeme_eq hd
    exact ⟨split?_eq_some_iff.2 ⟨List.append_nil _, longer, ht.symm ▸ hd, Text.endsRun_nil⟩, ht⟩

theorem Denotes.isSymbol (h : Denotes lexeme longer (.symbol name)) : IsSymbol name :=
  isSymbol_iff_denotes.2 ⟨longer, h.toList_eq ▸ h⟩

/-- Lexemes have nothing in them but visible characters. -/
theorem Denotes.visible (h : Denotes lexeme longer token) (hc : c ∈ lexeme) :
    33 ≤ c.toNat ∧ c.toNat ≤ 122 := by
  have hdigit (hd : c.isDigit = true) : 33 ≤ c.toNat ∧ c.toNat ≤ 122 := by
    have := toNat_of_isDigit hd
    omega
  cases h with
  | punctuation p =>
    rw [List.mem_singleton.1 hc]
    cases p <;> decide
  | digits hne hd => exact hdigit (hd c hc)
  | plus hne hd | minus hne hd =>
    rcases List.mem_cons.1 hc with rfl | hc
    · decide
    · exact hdigit (hd c hc)
  | symbol hs hi =>
    rcases List.mem_cons.1 hc with rfl | hc
    · exact toNat_of_isSymbolStart hs
    · exact toNat_of_isSymbolInner (hi c hc)
  | sign hs =>
    rw [List.mem_singleton.1 hc]
    rcases isSign_iff.1 hs with rfl | rfl <;> decide

theorem isSymbol_boolean (b : Bool) : IsSymbol (if b then "#t" else "#f") := by
  cases b <;> decide

theorem isSymbol_quote : IsSymbol "quote" := by decide

theorem isSymbol_builtin (b : Builtin) : IsSymbol b.name := by
  have hall : ∀ b ∈ Builtin.all, IsSymbol b.name := by decide
  exact hall b b.mem_all

end Lexeme

open Lexeme

theorem Piece.Fit.exists_denotes {rest : List Char} {pieces : List Piece} {tokens : List Token}
    (h : Fit rest pieces tokens) {token : Token} (ht : token ∈ tokens) :
    ∃ lexeme longer, Denotes lexeme longer token := by
  induction h with
  | nil => cases ht
  | cons hd hb hr hf ih =>
    rcases List.mem_cons.1 ht with rfl | ht
    · exact ⟨_, _, hd⟩
    · exact ih ht

theorem TokenStream.exists_denotes {text : List Char} {token : Token}
    (h : token ∈ (ofText text).tokens) : ∃ lexeme longer, Denotes lexeme longer token := by
  obtain ⟨cut, rest, tokens, -, hcut, -, hstream⟩ := exists_cut text
  rw [hstream] at h
  exact hcut.fit.exists_denotes h

/-- Symbols that come from the lexer are lexemes. -/
theorem TokenStream.isSymbol_of_mem {text : List Char} {name : String}
    (h : .symbol name ∈ (ofText text).tokens) : IsSymbol name := by
  obtain ⟨lexeme, longer, hd⟩ := exists_denotes h
  exact hd.isSymbol

end MiniScheme
