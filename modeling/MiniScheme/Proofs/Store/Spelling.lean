import MiniScheme.Proofs.Store.Reach
import MiniScheme.Proofs.Token.Symbol

namespace MiniScheme

open Lexeme

/-- If the value is a symbol, then one that can be written down. -/
def Value.Spelled (v : Value) : Prop := ∀ name, v = .symbol name → IsSymbol name

structure Closure.Spelled (c : Closure) : Prop where
  parameters : ∀ name ∈ c.parameters, IsSymbol name
  body : ∀ v ∈ c.body, v.Spelled

def Bindings.Spelled (bindings : Bindings) : Prop :=
  ∀ b ∈ bindings, IsSymbol b.1 ∧ b.2.Spelled

namespace Store

/-- All symbols in a store, the names in its scopes and the parameters included, are lexemes. -/
structure Spelled (s : Store) : Prop where
  first (p : Address) : (s.first p).Spelled
  second (p : Address) : (s.second p).Spelled
  bindings (e : Address) : Bindings.Spelled (s.scope e).bindings
  closure (c : Address) : (s.closure c).Spelled

variable {s t : Store} {v w : Value} {name : String}

theorem spelled_of_not_symbol (h : v.isSymbol = false) : v.Spelled := by
  intro name hv
  subst hv
  cases h

theorem Spelled.lookupHere (h : s.Spelled) {a : Address} (hl : s.lookupHere a name = some v) :
    IsSymbol name ∧ v.Spelled := by
  obtain ⟨before, after, hb, -⟩ := List.lookup_eq_some_iff.1 hl
  have hm : (name, v) ∈ (s.scope a).bindings := by simp [hb]
  exact h.bindings a _ hm

theorem Spelled.lookup (h : s.Spelled) {e : Address} (hl : s.lookup e name = some v) :
    v.Spelled := by
  obtain ⟨a, -, ha⟩ := List.exists_of_findSome?_eq_some hl
  exact (h.lookupHere ha).2

theorem Spelled.cons (h : s.Spelled) (hv : v.Spelled) (hw : w.Spelled) :
    (s.cons v w).2.Spelled := by
  have hp (p : Address) : ((s.cons v w).2.first p).Spelled ∧ ((s.cons v w).2.second p).Spelled := by
    rw [Store.first, Store.second]
    by_cases hp : p = s.pairs.size
    · rw [hp, pair_cons_size]
      exact ⟨hv, hw⟩
    · rw [pair_cons_of_ne v w hp]
      exact ⟨h.first p, h.second p⟩
  exact ⟨fun p ↦ (hp p).1, fun p ↦ (hp p).2, h.bindings, h.closure⟩

theorem Spelled.setFirst (h : s.Spelled) (hv : v.Spelled) (p : Address) :
    (s.setFirst p v).Spelled := by
  have hp (q : Address) :
      ((s.setFirst p v).first q).Spelled ∧ ((s.setFirst p v).second q).Spelled := by
    rw [Store.first, Store.second]
    rcases s.pair_setFirst p q v with he | he <;> rw [he]
    · exact ⟨hv, h.second q⟩
    · exact ⟨h.first q, h.second q⟩
  exact ⟨fun q ↦ (hp q).1, fun q ↦ (hp q).2, h.bindings, h.closure⟩

theorem Spelled.setSecond (h : s.Spelled) (hv : v.Spelled) (p : Address) :
    (s.setSecond p v).Spelled := by
  have hp (q : Address) :
      ((s.setSecond p v).first q).Spelled ∧ ((s.setSecond p v).second q).Spelled := by
    rw [Store.first, Store.second]
    rcases s.pair_setSecond p q v with he | he <;> rw [he]
    · exact ⟨h.first q, hv⟩
    · exact ⟨h.first q, h.second q⟩
  exact ⟨fun q ↦ (hp q).1, fun q ↦ (hp q).2, h.bindings, h.closure⟩

theorem Spelled.newClosure (h : s.Spelled) {closure : Closure} (hc : closure.Spelled) :
    (s.newClosure closure).2.Spelled := by
  refine ⟨h.first, h.second, h.bindings, fun c ↦ ?_⟩
  by_cases hn : c = s.closures.size
  · rw [hn, closure_newClosure_size]
    exact hc
  · rw [closure_newClosure_of_ne closure hn]
    exact h.closure c

theorem Spelled.newScope (h : s.Spelled) {scope : Scope}
    (hb : Bindings.Spelled scope.bindings) : (s.newScope scope).2.Spelled := by
  refine ⟨h.first, h.second, fun e ↦ ?_, h.closure⟩
  by_cases hn : e = s.scopes.size
  · rw [hn, scope_newScope_size]
    exact hb
  · rw [scope_newScope_of_ne scope hn]
    exact h.bindings e

theorem Spelled.bindHere (h : s.Spelled) (hn : IsSymbol name) (hv : v.Spelled) (e : Address) :
    (s.bindHere e name v).Spelled := by
  refine ⟨h.first, h.second, fun d ↦ ?_, h.closure⟩
  by_cases hd : d = e
  · subst hd
    rcases Nat.lt_or_ge d s.scopes.size with hlt | hge
    · rw [scope_bindHere_self name v hlt]
      rintro ⟨other, w⟩ hb
      rcases Bindings.mem_insert hb with ⟨rfl, rfl⟩ | hold
      · exact ⟨hn, hv⟩
      · exact h.bindings d _ hold
    · rw [bindHere_of_size_le name v hge]
      exact h.bindings d
  · rw [scope_bindHere_of_ne name v hd]
    exact h.bindings d

theorem Spelled.bindAll (h : s.Spelled) {bs : List (String × Value)}
    (hb : ∀ b ∈ bs, IsSymbol b.1 ∧ b.2.Spelled) (e : Address) : (s.bindAll e bs).Spelled := by
  induction bs generalizing s with
  | nil => exact h
  | cons b bs ih =>
    obtain ⟨hfirst, hrest⟩ := List.forall_mem_cons.1 hb
    exact ih (h.bindHere hfirst.1 hfirst.2 e) hrest

theorem Spelled.openScope (h : s.Spelled) (parent : Address) {bs : List (String × Value)}
    (hb : ∀ b ∈ bs, IsSymbol b.1 ∧ b.2.Spelled) : (s.openScope parent bs).2.Spelled := by
  have hn : (s.newChild parent).2.Spelled := h.newScope fun _ hm ↦ by cases hm
  exact hn.bindAll hb _

theorem Spelled.assign (h : s.Spelled) {e : Address} (hv : v.Spelled)
    (ha : s.assign e name v = some t) : t.Spelled := by
  obtain ⟨a, hh, rfl⟩ := Option.map_eq_some_iff.1 ha
  have hb : (s.lookupHere a name).isSome = true :=
    List.find?_some (p := fun a ↦ (s.lookupHere a name).isSome) hh
  obtain ⟨old, hl⟩ := Option.isSome_iff_exists.1 hb
  exact h.bindHere (h.lookupHere hl).1 hv a

theorem spelled_empty : empty.Spelled where
  first _ := spelled_of_not_symbol rfl
  second _ := spelled_of_not_symbol rfl
  bindings _ _ h := by cases h
  closure _ := ⟨fun _ h ↦ (by cases h), fun _ h ↦ by cases h⟩

end Store

end MiniScheme
