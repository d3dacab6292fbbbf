import MiniScheme.Proofs.Store.Acyclic
import MiniScheme.Proofs.Store.Race
import Mathlib.Tactic.IntervalCases

namespace MiniScheme.Store

variable {s t : Store} {v w tail : Value} {vs ws : List Value} {d : Datum} {ds : List Datum}
  {k : Nat}

section Chains

/-- The place of an element is the number of pairs before it. -/
theorem follow_getElem_of_elementsWithin (h : s.elementsWithin k v = some vs) {i : Nat}
    (hi : i < vs.length) : ∃ p, s.follow i v = some (.pair p) ∧ vs[i] = s.first p := by
  fun_induction elementsWithin s k v generalizing vs i with
  | case1 =>
    cases h
    cases hi
  | case2 => cases h
  | case3 => cases h
  | case4 k p ih =>
    obtain ⟨ws, hw, rfl⟩ := Option.map_eq_some_iff.1 h
    cases i with
    | zero => exact ⟨p, rfl, rfl⟩
    | succ i =>
      have hi : i < ws.length := Nat.lt_of_succ_lt_succ hi
      exact ih hw hi

/-- The elements are what is in the first slots of the chain, in order, up to the empty list. -/
theorem elements?_iff_follow : s.elements? v = some vs ↔
    s.follow vs.length v = some .nil ∧
      ∀ i (h : i < vs.length), ∃ p, s.follow i v = some (.pair p) ∧ vs[i] = s.first p := by
  constructor
  · exact fun h ↦ ⟨follow_of_elementsWithin h, fun _ hi ↦ follow_getElem_of_elementsWithin h hi⟩
  · rintro ⟨hend, hat⟩
    obtain ⟨ws, hws⟩ := exists_elementsWithin_of_follow hend
    have hlen := (follow_end_unique hend (follow_of_elementsWithin hws)).1
    have heq : vs = ws := by
      apply List.ext_getElem hlen
      intro i hi hi'
      obtain ⟨p, hp, he⟩ := hat i hi
      obtain ⟨q, hq, he'⟩ := follow_getElem_of_elementsWithin hws hi'
      rw [hp] at hq
      cases hq
      rw [he, he']
    rw [heq]
    exact elements?_eq_some_iff.2 ⟨_, hws⟩

theorem holds_of_elementsWithin (hc : s.Closed) (hv : s.Holds v)
    (h : s.elementsWithin k v = some vs) : ∀ w ∈ vs, s.Holds w := by
  fun_induction elementsWithin s k v generalizing vs with
  | case1 =>
    cases h
    simp
  | case2 => cases h
  | case3 => cases h
  | case4 k p ih =>
    obtain ⟨ws, hw, rfl⟩ := Option.map_eq_some_iff.1 h
    have hp := hc p (hv p rfl)
    exact List.forall_mem_cons.2 ⟨hp.1, ih hp.2 hw⟩

/-- A list of finite trees is a finite tree. -/
theorem unfolds_of_elementsWithin (hc : s.Closed) (hv : s.Holds v)
    (h : s.elementsWithin k v = some vs) (hds : List.Forall₂ s.Unfolds vs ds) :
    s.Unfolds v (Datum.ofList ds .nil) := by
  fun_induction elementsWithin s k v generalizing vs ds with
  | case1 =>
    cases h
    cases hds
    exact .atom .nil
  | case2 => cases h
  | case3 => cases h
  | case4 k p ih =>
    obtain ⟨ws, hw, rfl⟩ := Option.map_eq_some_iff.1 h
    have hp := hv p rfl
    cases hds with
    | cons hd hds => exact .pair hp hd (ih (hc p hp).2 hw hds)

end Chains

theorem exists_forall₂_unfolds_of_acyclic (hc : s.Closed) (hvs : ∀ v ∈ vs, s.Holds v)
    (ha : ∀ v ∈ vs, s.Acyclic v) : ∃ ds, List.Forall₂ s.Unfolds vs ds := by
  induction vs with
  | nil => exact ⟨[], .nil⟩
  | cons v vs ih =>
    obtain ⟨hv, hvs⟩ := List.forall_mem_cons.1 hvs
    obtain ⟨hfirst, hrest⟩ := List.forall_mem_cons.1 ha
    obtain ⟨d, hd⟩ := hfirst.exists_unfolds hc hv
    obtain ⟨ds, hds⟩ := ih hvs hrest
    exact ⟨d :: ds, .cons hd hds⟩

/-- New pairs are not found on a chain that was there before them. -/
theorem GrowsTo.elementsWithin_eq (hg : s.GrowsTo t) (hc : s.Closed) (hv : s.Holds v) (k : Nat) :
    t.elementsWithin k v = s.elementsWithin k v := by
  induction k generalizing v with
  | zero => cases v <;> rfl
  | succ k ih =>
    cases v with
    | atom a => rfl
    | pair p =>
      have hp := hv p rfl
      rw [elementsWithin, elementsWithin, first, second, hg.pair_eq hp]
      exact congrArg (Option.map _) (ih (hc p hp).2)

section OfList

theorem ofList_cons (s : Store) (v : Value) (vs : List Value) (tail : Value) :
    s.ofList (v :: vs) tail = (s.ofList vs tail).2.cons v (s.ofList vs tail).1 := rfl

theorem growsTo_ofList (s : Store) (vs : List Value) (tail : Value) :
    s.GrowsTo (s.ofList vs tail).2 := by
  induction vs with
  | nil => exact .refl s
  | cons v vs ih => exact ih.trans (growsTo_cons _ _ _)

theorem Closed.ofList (hc : s.Closed) (hvs : ∀ v ∈ vs, s.Holds v) (ht : s.Holds tail) :
    (s.ofList vs tail).2.Closed ∧ (s.ofList vs tail).2.Holds (s.ofList vs tail).1 := by
  induction vs with
  | nil => exact ⟨hc, ht⟩
  | cons v vs ih =>
    obtain ⟨hv, hvs⟩ := List.forall_mem_cons.1 hvs
    obtain ⟨hclosed, hholds⟩ := ih hvs
    refine ⟨hclosed.cons (hv.grow (growsTo_ofList s vs tail)) hholds, ?_⟩
    intro p hp
    cases hp
    simp [ofList_cons, Store.cons]

theorem elements?_cons (hc : s.Closed) (hw : s.Holds w) :
    (s.cons v w).2.elements? (s.cons v w).1 = (s.elements? w).map (v :: ·) := by
  have hg := growsTo_cons s v w
  have hp := pair_cons_size s v w
  have hsize : (s.cons v w).2.pairs.size = s.pairs.size + 1 := by simp [Store.cons]
  change (s.cons v w).2.elementsWithin ((s.cons v w).2.pairs.size + 1) (.pair s.pairs.size) = _
  rw [elementsWithin, first, second, hp, hg.elementsWithin_eq hc hw, hsize, elements?]

/-- The elements in front of a chain come before its own. -/
theorem elements?_ofList (hc : s.Closed) (hvs : ∀ v ∈ vs, s.Holds v) (ht : s.Holds tail) :
    (s.ofList vs tail).2.elements? (s.ofList vs tail).1 = (s.elements? tail).map (vs ++ ·) := by
  induction vs with
  | nil => exact (Option.map_id' (x := s.elements? tail)).symm
  | cons v vs ih =>
    obtain ⟨-, hvs⟩ := List.forall_mem_cons.1 hvs
    obtain ⟨hclosed, hholds⟩ := hc.ofList hvs ht
    rw [ofList_cons, elements?_cons hclosed hholds, ih hvs, Option.map_map]
    rfl

theorem unfolds_ofList (hds : List.Forall₂ s.Unfolds vs ds) (ht : s.Unfolds tail d) :
    (s.ofList vs tail).2.Unfolds (s.ofList vs tail).1 (Datum.ofList ds d) := by
  induction hds with
  | nil => exact ht
  | cons hv hds ih => exact (hv.grow (growsTo_ofList s _ tail)).cons ih

end OfList

/-- The test for lists always comes to an answer, and exactly the chains that end in the empty list
pass it; those that end in another atom and those that come back to one of their pairs do not, and
there are no others. The lists are the chains that have elements. A new list of the elements equals
the old one, and a chain behind new elements is a list if it is one without them. -/
theorem isList_decides (s : Store) (v : Value) :
    (∀ k, s.pairs.size < k → s.raceWithin k v v = some (s.isList v)) ∧
    (s.isList v = true ↔ ∃ k, s.follow k v = some .nil) ∧
    (s.isList v = false ↔
      (∃ k a, a ≠ .nil ∧ s.follow k v = some (.atom a)) ∨ s.Loops v) ∧
    (s.isList v = true ↔ ∃ vs, s.elements? v = some vs) ∧
    (∀ vs, s.elements? v = some vs →
      (s.follow vs.length v = some .nil ∧
        ∀ i (h : i < vs.length), ∃ p, s.follow i v = some (.pair p) ∧ vs[i] = s.first p) ∧
      (s.Closed → s.Holds v → (∀ w ∈ vs, s.Acyclic w) →
        (s.ofList vs .nil).2.equal (s.ofList vs .nil).1 v = true)) ∧
    ∀ vs, s.Closed → (∀ w ∈ vs, s.Holds w) → s.Holds v →
      (s.ofList vs v).2.isList (s.ofList vs v).1 = s.isList v ∧
        (s.ofList vs v).2.elements? (s.ofList vs v).1 = (s.elements? v).map (vs ++ ·) := by
  refine ⟨fun k hk ↦ race_eq_isList v hk, isList_iff, isList_eq_false_iff,
    isList_iff_exists_elements?, fun vs h ↦ ⟨elements?_iff_follow.1 h, fun hc hv ha ↦ ?_⟩,
    fun vs hc hvs hv ↦ ⟨?_, elements?_ofList hc hvs hv⟩⟩
  · have hheld := holds_of_elementsWithin hc hv h
    obtain ⟨ds, hds⟩ := exists_forall₂_unfolds_of_acyclic hc hheld ha
    have hd := unfolds_of_elementsWithin hc hv h hds
    exact (unfolds_ofList hds (.atom .nil)).equal (hd.grow (growsTo_ofList s vs .nil))
  · rw [← isSome_elements?, elements?_ofList hc hvs hv, Option.isSome_map, isSome_elements?]

/-- A list that has another one twice, and a chain that comes back to its last pair. -/
def shared : Store where
  pairs := #[⟨.symbol "a", .nil⟩, ⟨.pair 0, .pair 2⟩, ⟨.pair 0, .nil⟩, ⟨.integer 1, .pair 4⟩,
    ⟨.pair 1, .pair 4⟩]
  closures := #[]
  scopes := #[]

theorem closed_shared : shared.Closed := by
  intro p hp
  change p < 5 at hp
  interval_cases p <;> simp [Holds, shared, first, second, pair]

theorem isList_decides_shared :
    shared.Closed ∧ shared.elements? (.pair 1) = some [.pair 0, .pair 0] ∧
      (shared.ofList [.pair 0, .pair 0] .nil).2.equal
        (shared.ofList [.pair 0, .pair 0] .nil).1 (.pair 1) = true ∧
      shared.Loops (.pair 3) ∧
      (shared.ofList [.pair 1] (.pair 3)).2.isList (shared.ofList [.pair 1] (.pair 3)).1 =
        false := by
  have hel : shared.elements? (.pair 1) = some [.pair 0, .pair 0] := by decide
  have hone : shared.Holds (.pair 1) := by simp [Holds, shared]
  have hthree : shared.Holds (.pair 3) := by simp [Holds, shared]
  have htree : shared.Unfolds (.pair 0) (.cons (.symbol "a") .nil) :=
    .pair (by decide) (.atom _) (.atom _)
  have hacyclic : ∀ w ∈ [Value.pair 0, .pair 0], shared.Acyclic w := by simp [htree.acyclic]
  have hloops : shared.Loops (.pair 3) := ⟨1, 4, 0, rfl, rfl⟩
  obtain ⟨-, -, -, -, hlist, -⟩ := isList_decides shared (.pair 1)
  obtain ⟨-, -, hfalse, -, -, hbehind⟩ := isList_decides shared (.pair 3)
  refine ⟨closed_shared, hel, (hlist _ hel).2 closed_shared hone hacyclic, hloops, ?_⟩
  have hel : ∀ w ∈ [Value.pair 1], shared.Holds w := List.forall_mem_singleton.2 hone
  rw [(hbehind [.pair 1] closed_shared hel hthree).1]
  exact hfalse.2 (.inr hloops)

end MiniScheme.Store
