import MiniScheme.Proofs.Store.Precede

namespace MiniScheme.Store

/-- The later store has everything of the earlier one as it was. -/
structure ExtendedBy (s t : Store) : Prop where
  precedes : s.Precedes t
  pair_eq {p : Address} (h : p < s.pairs.size) : t.pair p = s.pair p
  scope_eq {e : Address} (h : e < s.scopes.size) : t.scope e = s.scope e

variable {s t u : Store}

theorem ExtendedBy.refl (s : Store) : s.ExtendedBy s := ⟨.refl s, fun _ ↦ rfl, fun _ ↦ rfl⟩

theorem ExtendedBy.trans (h : s.ExtendedBy t) (h' : t.ExtendedBy u) : s.ExtendedBy u where
  precedes := h.precedes.trans h'.precedes
  pair_eq hp := (h'.pair_eq (Nat.lt_of_lt_of_le hp h.precedes.pairs_le)).trans (h.pair_eq hp)
  scope_eq he := (h'.scope_eq (Nat.lt_of_lt_of_le he h.precedes.scopes_le)).trans (h.scope_eq he)

theorem extendedBy_cons (s : Store) (v w : Value) : s.ExtendedBy (s.cons v w).2 :=
  ⟨precedes_cons s v w, pair_cons_of_lt v w, fun _ ↦ rfl⟩

theorem extendedBy_newClosure (s : Store) (c : Closure) : s.ExtendedBy (s.newClosure c).2 :=
  ⟨precedes_newClosure s c, fun _ ↦ rfl, fun _ ↦ rfl⟩

theorem extendedBy_newScope (s : Store) (scope : Scope) : s.ExtendedBy (s.newScope scope).2 :=
  ⟨precedes_newScope s scope, fun _ ↦ rfl, scope_newScope_of_lt scope⟩

theorem extendedBy_ofList (s : Store) (vs : List Value) (tail : Value) :
    s.ExtendedBy (s.ofList vs tail).2 := by
  induction vs with
  | nil => exact .refl s
  | cons v vs ih => exact ih.trans (extendedBy_cons _ _ _)

theorem extendedBy_load (s : Store) (d : Datum) : s.ExtendedBy (s.load d).2 := by
  induction d generalizing s with
  | atom a => exact .refl s
  | cons d e ihd ihe => exact ((ihd s).trans (ihe _)).trans (extendedBy_cons _ _ _)

/-- Bindings in a new scope leave the earlier scopes as they are. -/
theorem ExtendedBy.bindAll (h : s.ExtendedBy t) {e : Address} (he : s.scopes.size ≤ e)
    (bs : List (String × Value)) : s.ExtendedBy (t.bindAll e bs) := by
  induction bs generalizing t with
  | nil => exact h
  | cons b bs ih =>
    apply ih
    refine ⟨h.precedes.trans (precedes_bindHere t e b.1 b.2), h.pair_eq, fun hd ↦ ?_⟩
    rw [scope_bindHere_of_ne b.1 b.2 (Nat.ne_of_lt (Nat.lt_of_lt_of_le hd he))]
    exact h.scope_eq hd

theorem extendedBy_openScope (s : Store) (parent : Address) (bs : List (String × Value)) :
    s.ExtendedBy (s.openScope parent bs).2 :=
  (extendedBy_newScope s ⟨[], s.chain parent⟩).bindAll (Nat.le_refl _) bs

end MiniScheme.Store
