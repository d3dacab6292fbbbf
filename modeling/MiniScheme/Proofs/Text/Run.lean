import MiniScheme.Text.Blank

namespace MiniScheme.Text

/-- A run of the given characters does not go on into this text. -/
def EndsRun (inside : Char → Bool) (rest : List Char) : Prop := ∀ c ∈ rest.head?, inside c = false

def AllBlank (text : List Char) : Prop := ∀ c ∈ text, isBlank c = true

variable {inside : Char → Bool} {run rest : List Char}

theorem endsRun_nil : EndsRun inside [] := by simp [EndsRun]

theorem endsRun_cons {c : Char} : EndsRun inside (c :: rest) ↔ inside c = false := by
  simp [EndsRun]

theorem EndsRun.mono {outside : Char → Bool} (h : EndsRun outside rest)
    (hi : ∀ c, inside c = true → outside c = true) : EndsRun inside rest := by
  intro c hc
  have ho := h c hc
  cases hin : inside c with
  | false => rfl
  | true => rwa [hi c hin] at ho

theorem takeWhile_run (hr : ∀ c ∈ run, inside c = true) (h : EndsRun inside rest) :
    (run ++ rest).takeWhile inside = run := by
  rw [List.takeWhile_append_of_pos hr]
  cases rest with
  | nil => simp
  | cons c rest => rw [List.takeWhile_cons, endsRun_cons.1 h]; simp

theorem dropWhile_run (hr : ∀ c ∈ run, inside c = true) (h : EndsRun inside rest) :
    (run ++ rest).dropWhile inside = rest := by
  rw [List.dropWhile_append_of_pos hr]
  cases rest with
  | nil => rfl
  | cons c rest => rw [List.dropWhile_cons, endsRun_cons.1 h]; rfl

theorem endsRun_dropWhile (text : List Char) : EndsRun inside (text.dropWhile inside) := by
  intro c hc
  have h := List.head?_dropWhile_not inside text
  rw [Option.mem_def.1 hc] at h
  simpa using h

theorem of_mem_takeWhile {text : List Char} {c : Char} (hc : c ∈ text.takeWhile inside) :
    inside c = true :=
  List.all_eq_true.1 List.all_takeWhile c hc

theorem allBlank_takeWhile (text : List Char) : AllBlank (text.takeWhile isBlank) :=
  fun _ hc ↦ of_mem_takeWhile hc

/-- Between the last control blank and the next one there is the space only. -/
theorem toNat_of_isBlank {c : Char} (h : isBlank c = true) : c.toNat ≤ 32 ∨ 133 ≤ c.toNat := by
  obtain ⟨r, hr, hl, hu⟩ := Ranges.contains_iff.1 h
  simp only [blanks, List.mem_cons, List.not_mem_nil, or_false] at hr
  rcases hr with rfl | rfl | rfl | rfl | rfl | rfl | rfl | rfl | rfl | rfl <;>
    simp only at hl hu <;> omega

end MiniScheme.Text
