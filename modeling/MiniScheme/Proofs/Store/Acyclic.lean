import MiniScheme.Proofs.Store.Unfold

namespace MiniScheme.Store

/-- What is found in a value through the slots of pairs, the value itself included. -/
inductive Part (s : Store) (v : Value) : Value → Prop
  | self : Part s v v
  | first {p : Address} (h : Part s v (.pair p)) : Part s v (s.first p)
  | second {p : Address} (h : Part s v (.pair p)) : Part s v (s.second p)

/-- No pair in the value is found again in one of its own slots. -/
def Acyclic (s : Store) (v : Value) : Prop :=
  ∀ p, s.Part v (.pair p) → ¬ s.Part (s.first p) (.pair p) ∧ ¬ s.Part (s.second p) (.pair p)

/-- A value without cycles and without procedures. -/
structure IsData (s : Store) (v : Value) : Prop where
  acyclic : s.Acyclic v
  builtin_not_part (b : Builtin) : ¬ s.Part v (.builtin b)
  closure_not_part (c : Address) : ¬ s.Part v (.closure c)

variable {s : Store} {u v w : Value}

theorem Part.trans (h : s.Part u v) (h' : s.Part v w) : s.Part u w := by
  induction h' with
  | self => exact h
  | first _ ih => exact ih.first
  | second _ ih => exact ih.second

theorem Acyclic.part (h : s.Acyclic v) (hw : s.Part v w) : s.Acyclic w :=
  fun p hp ↦ h p (hw.trans hp)

/-- Below a path of pairs that all contain the value, each way down ends where no pair is left. -/
theorem Acyclic.exists_unfolds_below {path : List Address} (h : s.Acyclic v) (hc : s.Closed)
    (hv : s.Holds v) (hpath : ∀ q ∈ path, s.Part (s.first q) v ∨ s.Part (s.second q) v) :
    ∃ d, s.Unfolds v d := by
  -- A pair on the path would contain itself, so every pair makes the path longer.
  induction hn : s.offPath path using Nat.strongRecOn generalizing path v with
  | _ n ih =>
    subst hn
    cases v with
    | atom a => exact ⟨_, .atom a⟩
    | pair p =>
      have hp := hv p rfl
      have hnot : p ∉ path := fun hmem ↦ (hpath p hmem).elim (h p .self).1 (h p .self).2
      have hlt := offPath_cons_lt hp hnot
      have hfirst : ∀ q ∈ p :: path,
          s.Part (s.first q) (s.first p) ∨ s.Part (s.second q) (s.first p) :=
        List.forall_mem_cons.2 ⟨.inl .self, fun q hq ↦ (hpath q hq).imp .first .first⟩
      have hsecond : ∀ q ∈ p :: path,
          s.Part (s.first q) (s.second p) ∨ s.Part (s.second q) (s.second p) :=
        List.forall_mem_cons.2 ⟨.inr .self, fun q hq ↦ (hpath q hq).imp .second .second⟩
      obtain ⟨d, hd⟩ := ih _ hlt (h.part (.first .self)) (hc p hp).1 hfirst rfl
      obtain ⟨e, he⟩ := ih _ hlt (h.part (.second .self)) (hc p hp).2 hsecond rfl
      exact ⟨.cons d e, .pair hp hd he⟩

theorem Acyclic.exists_unfolds (h : s.Acyclic v) (hc : s.Closed) (hv : s.Holds v) :
    ∃ d, s.Unfolds v d :=
  h.exists_unfolds_below hc hv (List.forall_mem_nil _)

theorem IsData.part (h : s.IsData v) (hw : s.Part v w) : s.IsData w where
  acyclic := h.acyclic.part hw
  builtin_not_part b hb := h.builtin_not_part b (hw.trans hb)
  closure_not_part c hc := h.closure_not_part c (hw.trans hc)

/-- The parts of a tree are trees that are not higher. -/
theorem Unfolds.exists_of_part {d : Datum} (h : s.Unfolds v d) (hw : s.Part v w) :
    ∃ e, s.Unfolds w e ∧ e.height ≤ d.height := by
  induction hw with
  | self => exact ⟨d, h, Nat.le_refl _⟩
  | first _ ih =>
    obtain ⟨e, he, hle⟩ := ih
    cases he with
    | pair _ hf _ => exact ⟨_, hf, by grind [Datum.height]⟩
  | second _ ih =>
    obtain ⟨e, he, hle⟩ := ih
    cases he with
    | pair _ _ hs => exact ⟨_, hs, by grind [Datum.height]⟩

theorem Unfolds.acyclic {d : Datum} (h : s.Unfolds v d) : s.Acyclic v := by
  intro p hp
  obtain ⟨e, he, -⟩ := h.exists_of_part hp
  obtain _ | ⟨hlt, hf, hs⟩ := he
  constructor
  · intro hback
    obtain ⟨e', he', hle⟩ := hf.exists_of_part hback
    rw [he'.unique (.pair hlt hf hs)] at hle
    grind [Datum.height]
  · intro hback
    obtain ⟨e', he', hle⟩ := hs.exists_of_part hback
    rw [he'.unique (.pair hlt hf hs)] at hle
    grind [Datum.height]

/-- Finite trees and values without cycles are the same. -/
theorem acyclic_iff (hc : s.Closed) (hv : s.Holds v) : s.Acyclic v ↔ ∃ d, s.Unfolds v d :=
  ⟨fun h ↦ h.exists_unfolds hc hv, fun ⟨_, h⟩ ↦ h.acyclic⟩

end MiniScheme.Store
