import MiniScheme.Proofs.Store.Elements
import MiniScheme.Proofs.Store.Follow

namespace MiniScheme.Store

variable {s : Store} {v w slow fast : Value} {vs : List Value} {a b : Atom} {k m n : Nat}
  {p q : Address}

theorem isNil_atom (a : Atom) : (Value.atom a).isNil = (a == .nil) := by
  cases a <;> rfl

theorem race_atom (s : Store) (k : Nat) (slow : Value) (a : Atom) :
    s.raceWithin (k + 1) slow (.atom a) = some (a == .nil) := by
  rw [raceWithin, rest, if_neg (by simp [Value.isPair]), isNil_atom]

theorem race_of_second_eq_atom (h : s.second p = .atom a) :
    s.raceWithin (k + 1) slow (.pair p) = some (a == .nil) := by
  rw [raceWithin, rest, h, if_neg (by simp [Value.isPair]), isNil_atom]

/-- A round in which the fast walker does not come to the end of the chain. -/
theorem race_of_second_eq_pair (h : s.second p = .pair q) :
    s.raceWithin (k + 1) slow (.pair p) =
      if (s.rest slow).isPair && s.rest slow == s.second q then some false
      else s.raceWithin k (s.rest slow) (s.second q) := by
  have hfast : s.rest (.pair p) = .pair q := h
  rw [raceWithin, hfast, if_pos (by rfl)]
  rfl

theorem follow_rest (h : s.follow (k + 1) v = some w) : s.follow k (s.rest v) = some w := by
  cases v with
  | atom a => cases h
  | pair p => exact h

/-- The fast walker comes to the end of a chain that has one: being nearer to it, it never stands
where the slow one is. -/
theorem race_of_end (hf : s.follow n fast = some (.atom a)) (hs : s.follow m slow = some (.atom b))
    (hle : n ≤ m) (hk : n < 2 * k) : s.raceWithin k slow fast = some (a == .nil) := by
  induction k generalizing n m slow fast with
  | zero => exact absurd hk (Nat.not_lt_zero n)
  | succ k ih =>
    rcases fast with c | p
    · obtain ⟨-, he⟩ := follow_atom_eq_some_iff.1 hf
      cases he
      exact race_atom s k slow a
    · obtain _ | n := n
      · cases hf
      have hrest : s.follow n (s.second p) = some (.atom a) := hf
      cases hp : s.second p with
      | atom c =>
        rw [hp, follow_atom_eq_some_iff] at hrest
        obtain ⟨-, he⟩ := hrest
        cases he
        exact race_of_second_eq_atom hp
      | pair q =>
        rw [hp] at hrest
        obtain _ | n := n
        · cases hrest
        have hfast : s.follow n (s.second q) = some (.atom a) := hrest
        obtain ⟨m, rfl⟩ : ∃ k, m = k + 1 := ⟨m - 1, by omega⟩
        have hslow := follow_rest hs
        have hne : s.rest slow ≠ s.second q := by
          intro he
          rw [he] at hslow
          have := (follow_end_unique hfast hslow).1
          omega
        rw [race_of_second_eq_pair hp, if_neg (by simp [hne])]
        exact ih hfast hslow (by omega) (by omega)

/-- Two walkers on an endless chain, of whom the fast one has gone twice as far: where they will
meet, the race is over at the latest. -/
theorem race_of_meeting {walk : Nat → Address}
    (hw : ∀ k, s.second (walk k) = .pair (walk (k + 1)))
    (hm : walk (m + n + 1) = walk (2 * (m + n + 1))) (hk : n < k) :
    s.raceWithin k (.pair (walk m)) (.pair (walk (2 * m))) = some false := by
  induction n generalizing m k with
  | zero =>
    obtain ⟨k, rfl⟩ := Nat.exists_eq_add_one_of_ne_zero (Nat.ne_of_gt hk)
    have hmeet : s.rest (.pair (walk m)) = s.second (walk (2 * m + 1)) := by
      rw [rest, hw, hw]
      exact congrArg Value.pair hm
    rw [race_of_second_eq_pair (hw _), hmeet, hw, if_pos (by simp [Value.isPair])]
  | succ n ih =>
    obtain ⟨k, rfl⟩ := Nat.exists_eq_add_one_of_ne_zero (Nat.ne_zero_of_lt hk)
    rw [race_of_second_eq_pair (hw _)]
    split
    · rfl
    · rw [rest, hw, hw]
      refine ih (m := m + 1) ?_ (Nat.lt_of_succ_lt_succ hk)
      rwa [Nat.add_right_comm m 1 n]

theorem race_of_endless (h : ∀ k a, s.follow k v ≠ some (.atom a)) (hk : s.pairs.size < k) :
    s.raceWithin k v v = some false := by
  obtain ⟨walk, hwalk, hnext⟩ := exists_walk_of_endless h
  obtain ⟨n, hlt, hn⟩ := exists_meeting_of_endless h
  have hm : walk (0 + n + 1) = walk (2 * (0 + n + 1)) := by
    rw [hwalk, hwalk] at hn
    rw [Nat.zero_add]
    exact Value.pair.inj (Option.some.inj hn)
  have hstart : v = .pair (walk 0) := Option.some.inj (hwalk 0)
  rw [hstart]
  exact race_of_meeting hnext hm (Nat.lt_trans hlt hk)

/-- The race is over after as many rounds as there are pairs and one more, and tells whether the
chain ends in the empty list. -/
theorem exists_race_eq (s : Store) (v : Value) :
    ∃ b, (∀ k, s.pairs.size < k → s.raceWithin k v v = some b) ∧
      (b = true ↔ ∃ k, s.follow k v = some .nil) := by
  by_cases h : ∃ k a, s.follow k v = some (.atom a)
  · obtain ⟨n, a, hn⟩ := h
    have hle := le_of_follow_eq_atom hn
    refine ⟨a == .nil, fun k hk ↦ race_of_end hn hn (Nat.le_refl n) (by omega), ?_⟩
    rw [beq_iff_eq]
    constructor
    · rintro rfl
      exact ⟨n, hn⟩
    · rintro ⟨j, hj⟩
      exact (follow_end_unique hn hj).2
  · push Not at h
    refine ⟨false, fun k hk ↦ race_of_endless h hk, ?_⟩
    simpa using fun k ↦ h k .nil

theorem race_eq_isList (v : Value) (hk : s.pairs.size < k) :
    s.raceWithin k v v = some (s.isList v) := by
  obtain ⟨b, hb, -⟩ := exists_race_eq s v
  rw [isList, hb k hk, hb _ (Nat.lt_succ_self _), Option.getD_some]

theorem isList_iff : s.isList v = true ↔ ∃ k, s.follow k v = some .nil := by
  obtain ⟨b, hb, hiff⟩ := exists_race_eq s v
  rw [isList, hb _ (Nat.lt_succ_self _), Option.getD_some, hiff]

theorem isList_eq_false_iff : s.isList v = false ↔
    (∃ k a, a ≠ .nil ∧ s.follow k v = some (.atom a)) ∨ s.Loops v := by
  rw [← Bool.not_eq_true, isList_iff]
  constructor
  · intro hnil
    by_cases h : ∃ k a, s.follow k v = some (.atom a)
    · obtain ⟨k, a, hk⟩ := h
      refine .inl ⟨k, a, ?_, hk⟩
      rintro rfl
      exact hnil ⟨k, hk⟩
    · push Not at h
      exact .inr (loops_of_endless h)
  · rintro (⟨k, a, ha, hk⟩ | hl) ⟨j, hj⟩
    · exact ha (follow_end_unique hk hj).2
    · exact hl.follow_ne_atom hj

section Elements

theorem follow_of_elementsWithin (h : s.elementsWithin k v = some vs) :
    s.follow vs.length v = some .nil := by
  fun_induction elementsWithin s k v generalizing vs with
  | case1 =>
    cases h
    rfl
  | case2 => cases h
  | case3 => cases h
  | case4 k p ih =>
    obtain ⟨ws, hw, rfl⟩ := Option.map_eq_some_iff.1 h
    exact ih hw

theorem exists_elementsWithin_of_follow (h : s.follow k v = some .nil) :
    ∃ vs, s.elementsWithin k v = some vs := by
  induction k generalizing v with
  | zero =>
    cases h
    exact ⟨[], rfl⟩
  | succ k ih =>
    cases v with
    | atom a => cases h
    | pair p =>
      obtain ⟨vs, hvs⟩ := ih (v := s.second p) h
      exact ⟨s.first p :: vs, by rw [elementsWithin, hvs, Option.map_some]⟩

/-- Lists are the chains that have elements. -/
theorem isList_iff_exists_elements? : s.isList v = true ↔ ∃ vs, s.elements? v = some vs := by
  rw [isList_iff]
  constructor
  · rintro ⟨k, hk⟩
    obtain ⟨vs, hvs⟩ := exists_elementsWithin_of_follow hk
    exact ⟨vs, elements?_eq_some_iff.2 ⟨k, hvs⟩⟩
  · rintro ⟨vs, hvs⟩
    exact ⟨_, follow_of_elementsWithin hvs⟩

theorem isSome_elements? (s : Store) (v : Value) : (s.elements? v).isSome = s.isList v := by
  rw [Bool.eq_iff_iff, Option.isSome_iff_exists, isList_iff_exists_elements?]

end Elements

end MiniScheme.Store
