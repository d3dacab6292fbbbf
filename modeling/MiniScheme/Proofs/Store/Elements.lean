import MiniScheme.Store.Chain
import MiniScheme.Store.Printer
import Mathlib.Data.List.Basic

namespace MiniScheme.Store

variable {s : Store} {v : Value} {vs ws : List Value} {k j : Nat} {path : List Address}

theorem elementsWithin_mono (h : s.elementsWithin k v = some vs) (hk : k ≤ j) :
    s.elementsWithin j v = some vs := by
  fun_induction elementsWithin s k v generalizing vs j with
  | case1 => simpa [elementsWithin] using h
  | case2 => cases h
  | case3 => cases h
  | case4 k p ih =>
    obtain ⟨ws, hw, rfl⟩ := Option.map_eq_some_iff.1 h
    obtain ⟨j, rfl⟩ : ∃ i, j = i + 1 := ⟨j - 1, by omega⟩
    rw [elementsWithin, ih hw (Nat.le_of_succ_le_succ hk), Option.map_some]

theorem elementsWithin_unique (h : s.elementsWithin k v = some vs)
    (h' : s.elementsWithin j v = some ws) : vs = ws := by
  have hv := elementsWithin_mono h (Nat.le_max_left k j)
  have hw := elementsWithin_mono h' (Nat.le_max_right k j)
  exact Option.some.inj (hv.symm.trans hw)

/-- As many steps as there are elements are enough. -/
theorem elementsWithin_length (h : s.elementsWithin k v = some vs) :
    s.elementsWithin vs.length v = some vs := by
  fun_induction elementsWithin s k v generalizing vs with
  | case1 =>
    cases h
    simp [elementsWithin]
  | case2 => cases h
  | case3 => cases h
  | case4 k p ih =>
    obtain ⟨ws, hw, rfl⟩ := Option.map_eq_some_iff.1 h
    rw [List.length_cons, elementsWithin, ih hw, Option.map_some]

/-- The pairs of a path all start longer lists. -/
def StartsLonger (s : Store) (path : List Address) (n : Nat) : Prop :=
  ∀ q ∈ path, ∃ k ws, s.elementsWithin k (.pair q) = some ws ∧ n < ws.length

/-- No pair of a list comes back in it, so the list is not longer than the pairs that are left and
one more, from outside the store. -/
theorem length_le_offPath (h : s.elementsWithin k v = some vs)
    (hp : s.StartsLonger path vs.length) : vs.length ≤ s.offPath path + 1 := by
  fun_induction elementsWithin s k v generalizing vs path with
  | case1 =>
    cases h
    exact Nat.zero_le _
  | case2 => cases h
  | case3 => cases h
  | case4 k p ih =>
    obtain ⟨ws, hw, rfl⟩ := Option.map_eq_some_iff.1 h
    have hself : s.elementsWithin (k + 1) (.pair p) = some (s.first p :: ws) := h
    rcases Nat.lt_or_ge p s.pairs.size with hlt | hge
    · have hnot : p ∉ path := by
        intro hm
        obtain ⟨j, us, hu, hlong⟩ := hp p hm
        rw [elementsWithin_unique hu hself] at hlong
        exact Nat.lt_irrefl _ hlong
      have hlonger : s.StartsLonger (p :: path) ws.length := by
        intro q hq
        rcases List.mem_cons.1 hq with rfl | hq
        · exact ⟨k + 1, _, hself, Nat.lt_succ_self _⟩
        · obtain ⟨j, us, hu, hlong⟩ := hp q hq
          exact ⟨j, us, hu, Nat.lt_of_succ_lt hlong⟩
      have hrest := ih hw hlonger
      have hoff := offPath_cons_lt hlt hnot
      rw [List.length_cons]
      omega
    · have hnil : s.second p = .nil := by simp [second, pair, Nat.not_lt.2 hge]
      rw [hnil] at hw
      rw [show ws = [] by cases k <;> simpa [elementsWithin, eq_comm] using hw]
      exact Nat.le_add_left 1 _

/-- A chain that ends at all is found to end. -/
theorem elements?_eq_some_iff : s.elements? v = some vs ↔ ∃ k, s.elementsWithin k v = some vs := by
  constructor
  · exact fun h ↦ ⟨_, h⟩
  · rintro ⟨k, h⟩
    have hnil : s.StartsLonger [] vs.length := fun q hq ↦ absurd hq List.not_mem_nil
    have hle := length_le_offPath h hnil
    have hoff : s.offPath [] = s.pairs.size := by simp [offPath]
    exact elementsWithin_mono (elementsWithin_length h) (hoff ▸ hle)

/-- The elements of a list are what is in its first slot and the elements behind that. -/
theorem exists_pair_of_elements? {x : Value} {xs : List Value}
    (h : s.elements? v = some (x :: xs)) :
    ∃ p, v = .pair p ∧ s.first p = x ∧ s.elements? (s.second p) = some xs := by
  cases v with
  | atom a =>
    rw [elements?, elementsWithin] at h
    split at h <;> cases h
  | pair p =>
    obtain ⟨ws, hw, heq⟩ := Option.map_eq_some_iff.1 h
    cases heq
    exact ⟨p, rfl, rfl, elements?_eq_some_iff.2 ⟨_, hw⟩⟩

/-- More steps than there are pairs, and one, find nothing more. -/
theorem elements?_eq_elementsWithin (hk : s.pairs.size + 1 ≤ k) :
    s.elements? v = s.elementsWithin k v := by
  cases hw : s.elementsWithin k v with
  | some ws => exact elements?_eq_some_iff.2 ⟨k, hw⟩
  | none =>
    cases hv : s.elements? v with
    | none => rfl
    | some vs =>
      rw [elementsWithin_mono hv hk] at hw
      cases hw

end MiniScheme.Store
