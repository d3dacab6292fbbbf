import MiniScheme.Proofs.Store.Precede
import MiniScheme.Proofs.Store.Unfold

namespace MiniScheme.Store

/-- The address in a value, if there is one, is an address of the store. -/
structure Owns (s : Store) (v : Value) : Prop where
  holds : s.Holds v
  closure_lt (c : Address) : v = .closure c → c < s.closures.size

/-- Slots, bindings and bodies have no address from outside the store. -/
structure Whole (s : Store) : Prop where
  owns_slots (p : Address) : p < s.pairs.size → s.Owns (s.first p) ∧ s.Owns (s.second p)
  owns_binding (e : Address) (name : String) (v : Value) :
    s.lookupHere e name = some v → s.Owns v
  owns_body (c : Address) (v : Value) : v ∈ (s.closure c).body → s.Owns v

variable {s t : Store} {v w : Value}

theorem owns_atom (s : Store) {a : Atom} (ha : ∀ c, a ≠ .closure c) : s.Owns (.atom a) where
  holds _ h := by cases h
  closure_lt c h := by
    cases h
    exact absurd rfl (ha c)

theorem Owns.mono (h : s.Owns v) (hs : s.Precedes t) : t.Owns v where
  holds p hp := Nat.lt_of_lt_of_le (h.holds p hp) hs.pairs_le
  closure_lt c hc := Nat.lt_of_lt_of_le (h.closure_lt c hc) hs.closures_le

theorem owns_cons (s : Store) (v w : Value) : (s.cons v w).2.Owns (s.cons v w).1 where
  holds p hp := by
    cases hp
    simp [Store.cons]
  closure_lt _ h := by cases h

theorem owns_newClosure (s : Store) (c : Closure) :
    (s.newClosure c).2.Owns (s.newClosure c).1 where
  holds _ hp := by cases hp
  closure_lt _ h := by
    cases h
    simp [Store.newClosure]

theorem Whole.closed (h : s.Whole) : s.Closed :=
  fun p hp ↦ ⟨(h.owns_slots p hp).1.holds, (h.owns_slots p hp).2.holds⟩

theorem Whole.owns_lookup (h : s.Whole) {e : Address} {name : String}
    (hl : s.lookup e name = some v) : s.Owns v := by
  obtain ⟨a, -, ha⟩ := List.exists_of_findSome?_eq_some hl
  exact h.owns_binding a name v ha

/-- A store is whole if all that is in it was owned before it. -/
theorem Precedes.whole (hs : s.Precedes t)
    (hp : ∀ p < t.pairs.size, s.Owns (t.first p) ∧ s.Owns (t.second p))
    (hl : ∀ e name v, t.lookupHere e name = some v → s.Owns v)
    (hb : ∀ c, ∀ v ∈ (t.closure c).body, s.Owns v) : t.Whole where
  owns_slots p h := ⟨(hp p h).1.mono hs, (hp p h).2.mono hs⟩
  owns_binding e name v h := (hl e name v h).mono hs
  owns_body c v h := (hb c v h).mono hs

theorem Whole.cons (h : s.Whole) (hv : s.Owns v) (hw : s.Owns w) : (s.cons v w).2.Whole := by
  refine (precedes_cons s v w).whole (fun p hp ↦ ?_) h.owns_binding h.owns_body
  rcases Nat.lt_or_ge p s.pairs.size with hlt | hge
  · rw [first, second, pair_cons_of_lt v w hlt]
    exact h.owns_slots p hlt
  · obtain rfl : p = s.pairs.size := by
      rw [Store.cons, Array.size_push] at hp
      omega
    rw [first, second, pair_cons_size]
    exact ⟨hv, hw⟩

theorem Whole.setFirst (h : s.Whole) {p : Address} (hp : p < s.pairs.size) (hv : s.Owns v) :
    (s.setFirst p v).Whole := by
  refine (precedes_setFirst s p v).whole (fun q hq ↦ ?_) h.owns_binding h.owns_body
  rw [first, second]
  by_cases he : q = p
  · subst he
    rw [pair_setFirst_self v hp]
    exact ⟨hv, (h.owns_slots q hp).2⟩
  · rw [pair_setFirst_of_ne v he]
    exact h.owns_slots q (by simpa [Store.setFirst] using hq)

theorem Whole.setSecond (h : s.Whole) {p : Address} (hp : p < s.pairs.size) (hv : s.Owns v) :
    (s.setSecond p v).Whole := by
  refine (precedes_setSecond s p v).whole (fun q hq ↦ ?_) h.owns_binding h.owns_body
  rw [first, second]
  by_cases he : q = p
  · subst he
    rw [pair_setSecond_self v hp]
    exact ⟨(h.owns_slots q hp).1, hv⟩
  · rw [pair_setSecond_of_ne v he]
    exact h.owns_slots q (by simpa [Store.setSecond] using hq)

theorem Whole.newClosure (h : s.Whole) {closure : Closure} (hc : ∀ v ∈ closure.body, s.Owns v) :
    (s.newClosure closure).2.Whole := by
  apply (precedes_newClosure s closure).whole h.owns_slots h.owns_binding
  intro c v hv
  rw [Store.closure, Store.newClosure, Array.getElem?_push] at hv
  split at hv
  · exact hc v hv
  · exact h.owns_body c v hv

/-- A binding of the later store is the new one or an earlier one. -/
theorem lookupHere_of_bindHere {d e : Address} {name other : String}
    (h : (s.bindHere e name v).lookupHere d other = some w) :
    w = v ∨ s.lookupHere d other = some w := by
  by_cases heq : d = e ∧ other = name
  · obtain ⟨rfl, rfl⟩ := heq
    rcases Nat.lt_or_ge d s.scopes.size with hlt | hge
    · rw [lookupHere_bindHere_self other v hlt] at h
      exact .inl (Option.some.inj h).symm
    · rw [bindHere_of_size_le other v hge] at h
      exact .inr h
  · rw [lookupHere_bindHere_of_ne v (Decidable.not_and_iff_not_or_not.1 heq)] at h
    exact .inr h

theorem Whole.bindHere (h : s.Whole) (hv : s.Owns v) (e : Address) (name : String) :
    (s.bindHere e name v).Whole := by
  refine (precedes_bindHere s e name v).whole h.owns_slots (fun d other w hw ↦ ?_) h.owns_body
  rcases lookupHere_of_bindHere hw with rfl | hw
  · exact hv
  · exact h.owns_binding d other w hw

theorem Whole.bindAll (h : s.Whole) {bs : List (String × Value)} (hb : ∀ b ∈ bs, s.Owns b.2)
    (e : Address) : (s.bindAll e bs).Whole := by
  induction bs generalizing s with
  | nil => exact h
  | cons b bs ih =>
    obtain ⟨hfirst, hrest⟩ := List.forall_mem_cons.1 hb
    have hs := precedes_bindHere s e b.1 b.2
    exact ih (h.bindHere hfirst e b.1) fun c hc ↦ (hrest c hc).mono hs

theorem Whole.newScope (h : s.Whole) {scope : Scope}
    (hb : ∀ name v, scope.bindings.lookup name = some v → s.Owns v) :
    (s.newScope scope).2.Whole := by
  refine (precedes_newScope s scope).whole h.owns_slots (fun e name v hl ↦ ?_) h.owns_body
  rcases Nat.lt_trichotomy e s.scopes.size with hlt | rfl | hgt
  · rw [lookupHere, scope_newScope_of_lt scope hlt] at hl
    exact h.owns_binding e name v hl
  · rw [lookupHere, scope_newScope_size] at hl
    exact hb name v hl
  · have hnone : (s.scopes.push scope)[e]? = none := by
      rw [Array.getElem?_eq_none_iff, Array.size_push]
      exact hgt
    rw [lookupHere, Store.scope, Store.newScope, hnone] at hl
    cases hl

theorem Whole.openScope (h : s.Whole) (parent : Address) {bs : List (String × Value)}
    (hb : ∀ b ∈ bs, s.Owns b.2) : (s.openScope parent bs).2.Whole := by
  have hn : (s.newChild parent).2.Whole := h.newScope fun _ _ hl ↦ by cases hl
  exact hn.bindAll (fun b hm ↦ (hb b hm).mono (precedes_newScope s _)) _

theorem Whole.assign (h : s.Whole) {e : Address} {name : String} (hv : s.Owns v)
    (ha : s.assign e name v = some t) : t.Whole := by
  obtain ⟨a, -, rfl⟩ := Option.map_eq_some_iff.1 ha
  exact h.bindHere hv a name

theorem whole_empty : empty.Whole where
  owns_slots _ h := absurd h (Nat.not_lt_zero _)
  owns_binding _ _ _ h := by cases h
  owns_body _ _ h := by cases h

end MiniScheme.Store
