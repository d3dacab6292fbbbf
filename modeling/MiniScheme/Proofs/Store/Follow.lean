import MiniScheme.Store.Chain
import Mathlib.Data.Fintype.Pigeonhole

namespace MiniScheme.Store

/-- Some pair of the chain comes back further along it. -/
def Loops (s : Store) (v : Value) : Prop :=
  ∃ i p n, s.follow i v = some (.pair p) ∧ s.follow (n + 1) (.pair p) = some (.pair p)

variable {s : Store} {v w : Value} {a b : Atom} {i j k : Nat} {p : Address}

theorem follow_atom_eq_some_iff : s.follow k (.atom a) = some w ↔ k = 0 ∧ w = .atom a := by
  cases k with
  | zero => simp [follow, eq_comm]
  | succ k => simp [follow]

theorem follow_add (s : Store) (i j : Nat) (v : Value) :
    s.follow (i + j) v = (s.follow i v).bind (s.follow j) := by
  induction i generalizing v with
  | zero => rw [Nat.zero_add, follow, Option.bind_some]
  | succ i ih =>
    rw [Nat.succ_add]
    cases v with
    | atom a => rfl
    | pair p => exact ih (s.second p)

theorem follow_add_of_eq_some (h : s.follow i v = some w) : s.follow (i + j) v = s.follow j w := by
  rw [follow_add, h, Option.bind_some]

theorem follow_succ_of_eq_pair (h : s.follow k v = some (.pair p)) :
    s.follow (k + 1) v = some (s.second p) :=
  follow_add_of_eq_some h

/-- A chain has one end only. -/
theorem follow_end_unique (hj : s.follow j v = some (.atom a)) (hk : s.follow k v = some (.atom b)) :
    j = k ∧ a = b := by
  rcases Nat.le_total j k with hle | hle
  · obtain ⟨d, rfl⟩ := Nat.exists_eq_add_of_le hle
    rw [follow_add_of_eq_some hj, follow_atom_eq_some_iff] at hk
    obtain ⟨rfl, he⟩ := hk
    cases he
    exact ⟨rfl, rfl⟩
  · obtain ⟨d, rfl⟩ := Nat.exists_eq_add_of_le hle
    rw [follow_add_of_eq_some hk, follow_atom_eq_some_iff] at hj
    obtain ⟨rfl, he⟩ := hj
    cases he
    exact ⟨rfl, rfl⟩

theorem exists_pair_of_endless (h : ∀ k a, s.follow k v ≠ some (.atom a)) (k : Nat) :
    ∃ p, s.follow k v = some (.pair p) := by
  induction k with
  | zero =>
    cases v with
    | atom a => exact absurd rfl (h 0 a)
    | pair p => exact ⟨p, rfl⟩
  | succ k ih =>
    obtain ⟨p, hp⟩ := ih
    have hnext := follow_succ_of_eq_pair hp
    cases hs : s.second p with
    | atom a => exact absurd (hs ▸ hnext) (h (k + 1) a)
    | pair q => exact ⟨q, hs ▸ hnext⟩

/-- A chain that comes back to a pair has no end: the pair would have to be at two distances from
it. -/
theorem Loops.follow_ne_atom (h : s.Loops v) : s.follow k v ≠ some (.atom a) := by
  obtain ⟨i, p, n, hi, hp⟩ := h
  intro hk
  have hle : i ≤ k := by
    by_contra hlt
    obtain ⟨d, rfl⟩ := Nat.exists_eq_add_of_le (Nat.le_of_not_le hlt)
    rw [follow_add_of_eq_some hk, follow_atom_eq_some_iff] at hi
    cases hi.2
  obtain ⟨d, rfl⟩ := Nat.exists_eq_add_of_le hle
  rw [follow_add_of_eq_some hi] at hk
  have htwice : s.follow (n + 1 + d) (.pair p) = some (.atom a) := by
    rw [follow_add_of_eq_some hp, hk]
  have := (follow_end_unique hk htwice).1
  omega

/-- Of more pairs in a row than the store has, two are the same. -/
theorem exists_repeat_of_pairs
    (h : ∀ i ≤ s.pairs.size, ∃ p < s.pairs.size, s.follow i v = some (.pair p)) :
    ∃ i n, i + (n + 1) ≤ s.pairs.size ∧ s.follow (i + (n + 1)) v = s.follow i v := by
  choose walk hlt hwalk using h
  let pairAt (i : Fin (s.pairs.size + 1)) : Fin s.pairs.size :=
    ⟨walk i (Nat.le_of_lt_succ i.isLt), hlt _ _⟩
  obtain ⟨i, j, hne, he⟩ := Fintype.exists_ne_map_eq_of_card_lt pairAt (by simp)
  have hfollow : s.follow i v = s.follow j v := by
    rw [hwalk i (Nat.le_of_lt_succ i.isLt), hwalk j (Nat.le_of_lt_succ j.isLt)]
    exact congrArg (fun p ↦ some (Value.pair p)) (congrArg Fin.val he)
  rcases Nat.lt_or_gt_of_ne (Fin.val_ne_of_ne hne) with hij | hji
  · obtain ⟨n, hn⟩ := Nat.exists_eq_add_of_lt hij
    exact ⟨i, n, by omega, by rw [hfollow, hn, Nat.add_assoc]⟩
  · obtain ⟨n, hn⟩ := Nat.exists_eq_add_of_lt hji
    exact ⟨j, n, by omega, by rw [← hfollow, hn, Nat.add_assoc]⟩

/-- A chain that ends has at most the pairs of the store and a last one outside it. -/
theorem le_of_follow_eq_atom (h : s.follow k v = some (.atom a)) : k ≤ s.pairs.size + 1 := by
  by_contra hlt
  have hpair (i : Nat) (hi : i + 1 < k) : ∃ p < s.pairs.size, s.follow i v = some (.pair p) := by
    obtain ⟨d, rfl⟩ : ∃ d, k = i + (d + 2) := ⟨k - (i + 2), by omega⟩
    rw [follow_add, Option.bind_eq_some_iff] at h
    obtain ⟨w, hw, hrest⟩ := h
    cases w with
    | atom b => cases (follow_atom_eq_some_iff.1 hrest).1
    | pair p =>
      have hrest : s.follow (d + 1) (s.second p) = some (.atom a) := hrest
      cases hs : s.second p with
      | atom b =>
        rw [hs] at hrest
        cases hrest
      | pair q => exact ⟨p, lt_size_of_second_eq_pair hs, hw⟩
  obtain ⟨i, n, hle, he⟩ := exists_repeat_of_pairs fun i hi ↦ hpair i (by omega)
  obtain ⟨p, -, hp⟩ := hpair i (by omega)
  rw [follow_add_of_eq_some hp, hp] at he
  exact Loops.follow_ne_atom ⟨i, p, n, hp, he⟩ h

section Endless

variable (h : ∀ k a, s.follow k v ≠ some (.atom a))
include h

theorem exists_walk_of_endless :
    ∃ walk : Nat → Address, (∀ k, s.follow k v = some (.pair (walk k))) ∧
      ∀ k, s.second (walk k) = .pair (walk (k + 1)) := by
  choose walk hwalk using exists_pair_of_endless h
  refine ⟨walk, hwalk, fun k ↦ ?_⟩
  have hnext := follow_succ_of_eq_pair (hwalk k)
  rw [hwalk (k + 1)] at hnext
  exact (Option.some.inj hnext).symm

/-- A chain without end passes some pair twice, because a store has finitely many. -/
theorem exists_repeat_of_endless :
    ∃ i n, i + (n + 1) ≤ s.pairs.size ∧ s.follow (i + (n + 1)) v = s.follow i v := by
  obtain ⟨walk, hwalk, hnext⟩ := exists_walk_of_endless h
  have hlt (k : Nat) : walk k < s.pairs.size := lt_size_of_second_eq_pair (hnext k)
  exact exists_repeat_of_pairs fun k _ ↦ ⟨walk k, hlt k, hwalk k⟩

theorem loops_of_endless : s.Loops v := by
  obtain ⟨i, n, -, he⟩ := exists_repeat_of_endless h
  obtain ⟨p, hp⟩ := exists_pair_of_endless h i
  rw [follow_add_of_eq_some hp, hp] at he
  exact ⟨i, p, n, hp, he⟩

/-- Two walkers of whom one goes twice as far as the other stand at the same pair at some time: when
both are past the first pair that comes back, and a multiple of the way round apart. -/
theorem exists_meeting_of_endless :
    ∃ k < s.pairs.size, s.follow (k + 1) v = s.follow (2 * (k + 1)) v := by
  obtain ⟨i, n, hsize, he⟩ := exists_repeat_of_endless h
  have hround (k m : Nat) (hk : i ≤ k) : s.follow (k + m * (n + 1)) v = s.follow k v := by
    induction m with
    | zero => simp
    | succ m ih =>
      obtain ⟨d, hd⟩ := Nat.exists_eq_add_of_le (Nat.le_add_right_of_le hk : i ≤ k + m * (n + 1))
      have hstep : k + (m + 1) * (n + 1) = i + (n + 1) + d := by
        rw [Nat.succ_mul]
        omega
      rw [hstep, follow_add, he, ← follow_add, ← hd, ih]
  obtain ⟨m, hm, hle⟩ : ∃ m, i < m * (n + 1) ∧ m * (n + 1) ≤ i + (n + 1) := by
    refine ⟨i / (n + 1) + 1, ?_⟩
    have hdiv := Nat.div_mul_le_self i (n + 1)
    have hmod : i < i / (n + 1) * (n + 1) + (n + 1) := Nat.lt_div_mul_add n.succ_pos
    rw [Nat.succ_mul]
    omega
  refine ⟨m * (n + 1) - 1, by omega, ?_⟩
  rw [Nat.sub_add_cancel (Nat.zero_lt_of_lt hm), Nat.two_mul, hround _ _ (Nat.le_of_lt hm)]

end Endless

/-- Every chain ends or loops. -/
theorem loops_iff : s.Loops v ↔ ∀ k a, s.follow k v ≠ some (.atom a) :=
  ⟨fun h _ _ ↦ h.follow_ne_atom, loops_of_endless⟩

end MiniScheme.Store
