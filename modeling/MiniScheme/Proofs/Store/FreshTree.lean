import MiniScheme.Proofs.Store.Slots

namespace MiniScheme.Store

/-- What is in the slots of all pairs. -/
def contents (s : Store) : List Value := s.pairs.toList.flatMap fun c ↦ [c.first, c.second]

/-- A value is the root of a tree that takes up the addresses from one to just below another, each
pair after those in its first slot and then those in its second one. -/
inductive Fills (s : Store) : Nat → Value → Nat → Prop
  | atom (a : Atom) (n : Nat) : Fills s n (.atom a) n
  | pair {l m p : Nat} (hf : Fills s l (s.first p) m) (hs : Fills s m (s.second p) p) :
      Fills s l (.pair p) (p + 1)

variable {s t : Store} {v w : Value} {d : Datum} {l m n p : Nat}

theorem Fills.le (h : s.Fills l v n) : l ≤ n := by
  induction h with
  | atom a n => exact Nat.le_refl n
  | pair _ _ ihf ihs => omega

theorem Fills.grow (h : s.Fills l v n) (hg : s.GrowsTo t) (hn : n ≤ s.pairs.size) :
    t.Fills l v n := by
  induction h with
  | atom a n => exact .atom a n
  | @pair l m p hf hs ihf ihs =>
    have hle := hs.le
    have he := hg.pair_eq hn
    have hf' := ihf (by omega)
    have hs' := ihs (by omega)
    rw [first, ← he] at hf'
    rw [second, ← he] at hs'
    exact .pair hf' hs'

theorem Fills.cons (hv : s.Fills l v m) (hw : s.Fills m w s.pairs.size) :
    (s.cons v w).2.Fills l (s.cons v w).1 (s.cons v w).2.pairs.size := by
  have hg := growsTo_cons s v w
  have hp := pair_cons_size s v w
  have hsize : (s.cons v w).2.pairs.size = s.pairs.size + 1 := by simp [Store.cons]
  rw [hsize]
  refine .pair (m := m) ?_ ?_
  · rw [first, hp]
    exact hv.grow hg hw.le
  · rw [second, hp]
    exact hw.grow hg (Nat.le_refl _)

theorem Fills.exists_of_part (h : s.Fills l v n) (hw : s.Part v w) :
    ∃ l' n', l ≤ l' ∧ n' ≤ n ∧ s.Fills l' w n' := by
  induction hw with
  | self => exact ⟨l, n, Nat.le_refl l, Nat.le_refl n, h⟩
  | first _ ih =>
    obtain ⟨l', n', hl, hn, hp⟩ := ih
    cases hp with
    | @pair _ m _ hf hs =>
      have hle := hs.le
      exact ⟨l', m, hl, by omega, hf⟩
  | second _ ih =>
    obtain ⟨l', n', hl, hn, hp⟩ := ih
    cases hp with
    | @pair _ m _ hf hs =>
      have hle := hf.le
      exact ⟨m, _, by omega, by omega, hs⟩

theorem Fills.of_part (h : s.Fills l v n) (hp : s.Part v (.pair p)) : l ≤ p ∧ p < n := by
  obtain ⟨l', n', hl, hn, hfills⟩ := h.exists_of_part hp
  cases hfills with
  | pair hf hs =>
    have hlef := hf.le
    have hles := hs.le
    omega

section Contents

end Contents

end MiniScheme.Store
