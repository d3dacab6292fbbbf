import MiniScheme.Proofs.Text.Unbroken

namespace MiniScheme.Text

/-- Three full stops in a row stand for what is left out. -/
def Elides (text : String) : Prop := "...".toList <:+: text.toList

def Stopless (text : String) : Prop := '.' ∉ text.toList

/-- Every full stop has a blank behind it. -/
def StopSpaced (text : String) : Prop :=
  ∀ before after, text.toList = before ++ '.' :: after → after.head? = some ' '

instance (text : String) : Decidable (Stopless text) :=
  inferInstanceAs (Decidable ('.' ∉ text.toList))

variable {text other : String}

theorem Stopless.append (h : Stopless text) (h' : Stopless other) : Stopless (text ++ other) := by
  rw [Stopless, String.toList_append, List.mem_append]
  exact not_or.2 ⟨h, h'⟩

theorem stopless_int (n : Int) : Stopless (toString n) := by
  have hnat (k : Nat) : Stopless k.repr := by
    intro hc
    have hdigit := Lexeme.isDigit_of_mem_repr hc
    revert hdigit
    decide
  rw [Int.toString_eq_repr, Int.repr_eq_if]
  split
  · exact hnat _
  · exact (by decide : Stopless "-").append (hnat _)

theorem Stopless.stopSpaced (h : Stopless text) : StopSpaced text := by
  intro before after he
  rw [Stopless, he] at h
  exact absurd (List.mem_append_right before List.mem_cons_self) h

theorem stopSpaced_dot : StopSpaced " . " := by
  intro before after he
  replace he : [' ', '.', ' '] = before ++ '.' :: after := he
  rcases before with _ | ⟨a, _ | ⟨b, before⟩⟩
  · cases he
  · cases he
    rfl
  · have hstop : '.' ∈ [' '] := by simp_all
    exact absurd hstop (by decide)

theorem StopSpaced.append (h : StopSpaced text) (h' : StopSpaced other) :
    StopSpaced (text ++ other) := by
  intro before after he
  rw [String.toList_append, List.append_eq_append_iff] at he
  obtain ⟨rest, -, hr⟩ | ⟨rest, ht, hr⟩ := he
  · exact h' rest after hr
  · cases rest with
    | nil => exact h' [] after hr.symm
    | cons c rest =>
      obtain ⟨rfl, rfl⟩ := List.cons.inj hr
      have hhead := h before rest ht
      cases rest with
      | nil => cases hhead
      | cons c rest => exact hhead

theorem StopSpaced.not_elides (h : StopSpaced text) : ¬ Elides text := by
  rintro ⟨before, after, he⟩
  have hstop : text.toList = before ++ '.' :: ('.' :: '.' :: after) := by
    rw [← he]
    simp
  cases h _ _ hstop

theorem Elides.append_left (h : Elides text) (other : String) : Elides (text ++ other) := by
  rw [Elides, String.toList_append]
  exact h.trans (List.prefix_append _ _).isInfix

theorem Elides.append_right (h : Elides text) (other : String) : Elides (other ++ text) := by
  rw [Elides, String.toList_append]
  exact h.trans (List.suffix_append _ _).isInfix

end MiniScheme.Text
