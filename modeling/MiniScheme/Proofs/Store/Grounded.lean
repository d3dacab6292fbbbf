import MiniScheme.Proofs.Store.Precede

namespace MiniScheme.Store

/-- Every chain of scopes ends in the global one, where the given names are bound. Closures remember
scopes of the store. -/
structure Grounded (s : Store) (global : Address) (names : String → Prop) : Prop where
  global_lt : global < s.scopes.size
  getLast_chain {e : Address} (h : e < s.scopes.size) : (s.chain e).getLast? = some global
  captured_lt (c : Address) : (s.closure c).scope < s.scopes.size
  bound {name : String} (h : names name) : (s.lookupHere global name).isSome = true

variable {s t : Store} {global : Address} {names : String → Prop}

theorem isSome_lookup_of_mem {a e : Address} {name : String} (ha : a ∈ s.chain e)
    (h : (s.lookupHere a name).isSome = true) : (s.lookup e name).isSome = true := by
  rw [lookup, List.findSome?_isSome_iff]
  exact ⟨a, ha, h⟩

/-- A name that is bound in the global scope is found from everywhere. -/
theorem Grounded.isSome_lookup {e : Address} {name : String} (h : s.Grounded global names)
    (he : e < s.scopes.size) (hn : names name) : (s.lookup e name).isSome = true :=
  isSome_lookup_of_mem (List.mem_of_getLast? (h.getLast_chain he)) (h.bound hn)

theorem Grounded.cons (h : s.Grounded global names) (v w : Value) :
    (s.cons v w).2.Grounded global names :=
  ⟨h.global_lt, h.getLast_chain, h.captured_lt, h.bound⟩

theorem Grounded.setFirst (h : s.Grounded global names) (p : Address) (v : Value) :
    (s.setFirst p v).Grounded global names :=
  ⟨h.global_lt, h.getLast_chain, h.captured_lt, h.bound⟩

theorem Grounded.setSecond (h : s.Grounded global names) (p : Address) (v : Value) :
    (s.setSecond p v).Grounded global names :=
  ⟨h.global_lt, h.getLast_chain, h.captured_lt, h.bound⟩

theorem Grounded.newClosure (h : s.Grounded global names) {closure : Closure}
    (hc : closure.scope < s.scopes.size) : (s.newClosure closure).2.Grounded global names where
  global_lt := h.global_lt
  getLast_chain := h.getLast_chain
  captured_lt c := by
    rw [Store.closure, Store.newClosure, Array.getElem?_push]
    split
    · exact hc
    · exact h.captured_lt c
  bound := h.bound

theorem isSome_lookupHere_bindHere {d : Address} {name : String}
    (h : (s.lookupHere d name).isSome = true) (e : Address) (other : String) (v : Value) :
    ((s.bindHere e other v).lookupHere d name).isSome = true := by
  by_cases heq : d = e ∧ name = other
  · obtain ⟨rfl, rfl⟩ := heq
    rcases Nat.lt_or_ge d s.scopes.size with hlt | hge
    · rw [lookupHere_bindHere_self name v hlt]
      rfl
    · rwa [bindHere_of_size_le name v hge]
  · rwa [lookupHere_bindHere_of_ne v (Decidable.not_and_iff_not_or_not.1 heq)]

theorem Grounded.bindHere (h : s.Grounded global names) (e : Address) (name : String) (v : Value) :
    (s.bindHere e name v).Grounded global names where
  global_lt := Nat.lt_of_lt_of_le h.global_lt (precedes_bindHere s e name v).scopes_le
  getLast_chain hd := by
    rw [chain_bindHere]
    exact h.getLast_chain (by simpa [Store.bindHere] using hd)
  captured_lt c := Nat.lt_of_lt_of_le (h.captured_lt c) (precedes_bindHere s e name v).scopes_le
  bound hn := isSome_lookupHere_bindHere (h.bound hn) e name v

theorem Grounded.bindAll (h : s.Grounded global names) (e : Address) (bs : List (String × Value)) :
    (s.bindAll e bs).Grounded global names := by
  induction bs generalizing s with
  | nil => exact h
  | cons b bs ih => exact ih (h.bindHere e b.1 b.2)

theorem Grounded.newChild (h : s.Grounded global names) {parent : Address}
    (hp : parent < s.scopes.size) : (s.newChild parent).2.Grounded global names where
  global_lt := Nat.lt_of_lt_of_le h.global_lt (precedes_newScope s _).scopes_le
  getLast_chain {e} he := by
    rcases Nat.lt_or_ge e s.scopes.size with hlt | hge
    · rw [Store.newChild, chain_newScope_of_lt _ hlt]
      exact h.getLast_chain hlt
    · obtain rfl : e = s.scopes.size := by
        rw [Store.newChild, newScope, Array.size_push] at he
        exact Nat.le_antisymm (Nat.le_of_lt_succ he) hge
      rw [chain, Store.newChild, scope_newScope_size]
      exact List.getLast?_cons_cons.trans (h.getLast_chain hp)
  captured_lt c := Nat.lt_of_lt_of_le (h.captured_lt c) (precedes_newScope s _).scopes_le
  bound hn := by
    rw [Store.newChild, lookupHere, scope_newScope_of_lt _ h.global_lt]
    exact h.bound hn

theorem Grounded.openScope (h : s.Grounded global names) {parent : Address}
    (hp : parent < s.scopes.size) (bs : List (String × Value)) :
    (s.openScope parent bs).2.Grounded global names :=
  (h.newChild hp).bindAll _ bs

theorem Grounded.assign (h : s.Grounded global names) {e : Address} {name : String} {v : Value}
    (ha : s.assign e name v = some t) : t.Grounded global names := by
  obtain ⟨a, -, rfl⟩ := Option.map_eq_some_iff.1 ha
  exact h.bindHere a name v

end MiniScheme.Store
