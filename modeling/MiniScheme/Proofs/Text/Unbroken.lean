import MiniScheme.Proofs.Token.Symbol
import MiniScheme.Text.Quoted

namespace MiniScheme.Text

def isLineBreak (c : Char) : Bool := c == '\n' || c == '\r'

/-- A text without line breaks of any kind. -/
def Unbroken (text : String) : Prop := ∀ c ∈ text.toList, isLineBreak c = false

instance (text : String) : Decidable (Unbroken text) :=
  decidable_of_iff (text.toList.all (!isLineBreak ·) = true) (by simp [Unbroken])

variable {text other : String}

theorem Unbroken.append (h : Unbroken text) (h' : Unbroken other) : Unbroken (text ++ other) := by
  intro c hc
  rw [String.toList_append] at hc
  exact (List.mem_append.1 hc).elim (h c) (h' c)

theorem mem_intercalate {texts : List String} {c : Char}
    (h : c ∈ (other.intercalate texts).toList) :
    c ∈ other.toList ∨ ∃ text ∈ texts, c ∈ text.toList := by
  induction texts with
  | nil => simp at h
  | cons text texts ih =>
    cases texts with
    | nil =>
      rw [String.intercalate_singleton] at h
      exact .inr ⟨text, List.mem_singleton_self text, h⟩
    | cons next texts =>
      rw [String.intercalate_cons_cons, String.toList_append, String.toList_append] at h
      rcases List.mem_append.1 h with h | h
      · exact (List.mem_append.1 h).symm.imp_right fun h ↦ ⟨text, List.mem_cons_self, h⟩
      · obtain h | ⟨later, hl, h⟩ := ih h
        · exact .inl h
        · exact .inr ⟨later, List.mem_cons_of_mem text hl, h⟩

theorem unbroken_intercalate {texts : List String} (hs : Unbroken other)
    (h : ∀ text ∈ texts, Unbroken text) : Unbroken (other.intercalate texts) := by
  intro c hc
  obtain hc | ⟨text, ht, hc⟩ := mem_intercalate hc
  · exact hs c hc
  · exact h text ht c hc

theorem unbroken_of_denotes {longer : Char → Bool} {token : Token}
    (h : Lexeme.Denotes text.toList longer token) : Unbroken text := by
  intro c hc
  have hv := (h.visible hc).1
  rw [isLineBreak, Bool.or_eq_false_iff, beq_eq_false_iff_ne, beq_eq_false_iff_ne]
  constructor <;> rintro rfl <;> revert hv <;> decide

theorem unbroken_of_isSymbol (h : Lexeme.IsSymbol text) : Unbroken text := by
  obtain ⟨longer, hd⟩ := Lexeme.isSymbol_iff_denotes.1 h
  exact unbroken_of_denotes hd

theorem unbroken_int (n : Int64) : Unbroken (toString n.toInt) :=
  unbroken_of_denotes (Lexeme.denotes_integer n)

theorem unbroken_nat (n : Nat) : Unbroken n.repr :=
  unbroken_of_denotes (.digits (Lexeme.repr_ne_nil n) fun _ ↦ Lexeme.isDigit_of_mem_repr)

theorem isLineBreak_of_mem_toDigits {n : Nat} {c : Char} (h : c ∈ Nat.toDigits 16 n) :
    isLineBreak c = false := by
  have hdigit (k : Nat) : isLineBreak k.digitChar = false := by
    simp [isLineBreak, Nat.digitChar_ne]
  induction n using Nat.strongRecOn with
  | _ n ih =>
    rw [Nat.toDigits_eq_if (by decide)] at h
    split at h
    · rw [List.mem_singleton.1 h]
      exact hdigit n
    · rcases List.mem_append.1 h with h | h
      · exact ih (n / 16) (by omega) h
      · rw [List.mem_singleton.1 h]
        exact hdigit _

/-- Line breaks are escaped. -/
theorem unbroken_escape (quote c : Char) : Unbroken (escape quote c) := by
  by_cases hc : isLineBreak c = true
  · have hb : c = '\n' ∨ c = '\r' := by simpa [isLineBreak] using hc
    rcases hb with rfl | rfl
    · exact (by decide : Unbroken "\\n")
    · exact (by decide : Unbroken "\\r")
  · have hs : Unbroken c.toString := by
      simpa [Unbroken, Char.toString] using hc
    have hx : Unbroken (hexadecimal c.toNat) := by
      intro d hd
      rw [hexadecimal, String.toList_ofList] at hd
      exact isLineBreak_of_mem_toDigits hd
    have hslash : Unbroken "\\" := by decide
    have hopen : Unbroken "\\u\x7b" := by decide
    have hclose : Unbroken "\x7d" := by decide
    rw [escape]
    repeat' split
    · decide
    · decide
    · decide
    · decide
    · exact hslash.append hs
    · exact (hopen.append hx).append hclose
    · exact hs

theorem unbroken_quoteChar (c : Char) : Unbroken (quoteChar c) := by
  have hq : Unbroken '\x27'.toString := by decide
  have hc : Unbroken (String.join [escape '\x27' c]) := by
    rw [String.join_cons, String.join_nil]
    exact (unbroken_escape _ c).append (by decide)
  exact (hq.append hc).append hq

end MiniScheme.Text
