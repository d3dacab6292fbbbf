import MiniScheme.Store.Scope

namespace MiniScheme.Store

/-- The later store still has everything of the earlier one. Slots and bindings may have changed,
but neither the closures nor the scopes around a scope. -/
structure Precedes (s t : Store) : Prop where
  pairs_le : s.pairs.size ≤ t.pairs.size
  closures_le : s.closures.size ≤ t.closures.size
  scopes_le : s.scopes.size ≤ t.scopes.size
  closure_eq {c : Address} (h : c < s.closures.size) : t.closure c = s.closure c
  chain_eq {e : Address} (h : e < s.scopes.size) : t.chain e = s.chain e

variable {s t u : Store}

theorem Precedes.refl (s : Store) : s.Precedes s :=
  ⟨Nat.le_refl _, Nat.le_refl _, Nat.le_refl _, fun _ ↦ rfl, fun _ ↦ rfl⟩

theorem Precedes.trans (h : s.Precedes t) (h' : t.Precedes u) : s.Precedes u where
  pairs_le := Nat.le_trans h.pairs_le h'.pairs_le
  closures_le := Nat.le_trans h.closures_le h'.closures_le
  scopes_le := Nat.le_trans h.scopes_le h'.scopes_le
  closure_eq hc := by
    rw [h'.closure_eq (Nat.lt_of_lt_of_le hc h.closures_le), h.closure_eq hc]
  chain_eq he := by rw [h'.chain_eq (Nat.lt_of_lt_of_le he h.scopes_le), h.chain_eq he]

theorem precedes_cons (s : Store) (v w : Value) : s.Precedes (s.cons v w).2 :=
  ⟨by simp [cons], Nat.le_refl _, Nat.le_refl _, fun _ ↦ rfl, fun _ ↦ rfl⟩

theorem precedes_setFirst (s : Store) (p : Address) (v : Value) : s.Precedes (s.setFirst p v) :=
  ⟨by simp [setFirst], Nat.le_refl _, Nat.le_refl _, fun _ ↦ rfl, fun _ ↦ rfl⟩

theorem precedes_setSecond (s : Store) (p : Address) (v : Value) : s.Precedes (s.setSecond p v) :=
  ⟨by simp [setSecond], Nat.le_refl _, Nat.le_refl _, fun _ ↦ rfl, fun _ ↦ rfl⟩

theorem closure_newClosure_of_lt {c : Address} (closure : Closure) (h : c < s.closures.size) :
    (s.newClosure closure).2.closure c = s.closure c := by
  simp [Store.closure, newClosure, Array.getElem?_push, Nat.ne_of_lt h]

theorem precedes_newClosure (s : Store) (closure : Closure) :
    s.Precedes (s.newClosure closure).2 where
  pairs_le := Nat.le_refl _
  closures_le := by simp [newClosure]
  scopes_le := Nat.le_refl _
  closure_eq := closure_newClosure_of_lt closure
  chain_eq _ := rfl

theorem chain_newScope_of_lt {e : Address} (scope : Scope) (h : e < s.scopes.size) :
    (s.newScope scope).2.chain e = s.chain e := by
  rw [chain, chain, scope_newScope_of_lt scope h]

theorem precedes_newScope (s : Store) (scope : Scope) : s.Precedes (s.newScope scope).2 where
  pairs_le := Nat.le_refl _
  closures_le := Nat.le_refl _
  scopes_le := by simp [newScope]
  closure_eq _ := rfl
  chain_eq := chain_newScope_of_lt scope

theorem precedes_bindHere (s : Store) (e : Address) (name : String) (v : Value) :
    s.Precedes (s.bindHere e name v) where
  pairs_le := Nat.le_refl _
  closures_le := Nat.le_refl _
  scopes_le := by simp [bindHere]
  closure_eq _ := rfl
  chain_eq _ := chain_bindHere s _ e name v

theorem precedes_bindAll (s : Store) (e : Address) (names : List (String × Value)) :
    s.Precedes (s.bindAll e names) := by
  induction names generalizing s with
  | nil => exact .refl s
  | cons b names ih => exact (precedes_bindHere s e b.1 b.2).trans (ih _)

theorem precedes_openScope (s : Store) (parent : Address) (names : List (String × Value)) :
    s.Precedes (s.openScope parent names).2 :=
  (precedes_newScope s _).trans (precedes_bindAll _ _ names)

theorem openScope_lt (s : Store) (parent : Address) (names : List (String × Value)) :
    (s.openScope parent names).1 < (s.openScope parent names).2.scopes.size := by
  have hlt : (s.newChild parent).1 < (s.newChild parent).2.scopes.size := by
    simp [newChild, newScope]
  exact Nat.lt_of_lt_of_le hlt (precedes_bindAll _ _ names).scopes_le

theorem precedes_assign {e : Address} {name : String} {v : Value}
    (h : s.assign e name v = some t) : s.Precedes t := by
  obtain ⟨a, -, rfl⟩ := Option.map_eq_some_iff.1 h
  exact precedes_bindHere s a name v

theorem precedes_ofList (s : Store) (vs : List Value) (tail : Value) :
    s.Precedes (s.ofList vs tail).2 := by
  induction vs with
  | nil => exact .refl s
  | cons v vs ih => exact ih.trans (precedes_cons _ _ _)

theorem precedes_load (s : Store) (d : Datum) : s.Precedes (s.load d).2 := by
  induction d generalizing s with
  | atom a => exact .refl s
  | cons d e ihd ihe => exact ((ihd s).trans (ihe _)).trans (precedes_cons _ _ _)

end MiniScheme.Store
