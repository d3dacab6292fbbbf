import MiniScheme.Proofs.Store.Advance

namespace MiniScheme

open Store

variable {A : Node → Prop} {M : Correspondence} {s t u : Store} {v : Value} {vs : List Value}
  {n : Node} {d e : Address} {name : String} {c c' : Closure}

/-- Nodes of a kind stand for themselves. -/
def Correspondence.identity (A : Node → Prop) : Correspondence := fun n m ↦ n = m ∧ A n

theorem Value.matches_identity (h : Within A v) : v.Matches (.identity A) v := by
  match v with
  | .pair p => exact .pair ⟨rfl, h _ rfl⟩
  | .closure c => exact .closure ⟨rfl, h _ rfl⟩
  | .nil | .integer _ | .symbol _ | .builtin _ => exact .atom _ (by simp)

theorem matches_all_identity (h : ∀ v ∈ vs, Within A v) :
    List.Forall₂ (Value.Matches (.identity A)) vs vs :=
  List.forall₂_same.2 fun v hv ↦ v.matches_identity (h v hv)

namespace Store

theorem matchesAt_identity (hc : s.ClosedUnder A) (hn : A n) :
    MatchesAt (.identity A) s s n n := by
  cases n with
  | pair p =>
    have hp : Within A (.pair p) := by
      intro m hm
      cases hm
      exact hn
    exact .pair ⟨Value.matches_identity (hc.first hp), Value.matches_identity (hc.second hp)⟩
  | closure c =>
    have hbody : ∀ v ∈ (s.closure c).body, Within A v :=
      fun v hv m hm ↦ hc _ _ hn (body_mem_successors hv hm)
    exact .closure ⟨rfl, matches_all_identity hbody, rfl, hc _ _ hn (captured_mem_successors s c)⟩
  | scope e =>
    have hbinding : ∀ b ∈ (s.scope e).bindings, Within A b.2 :=
      fun b hb m hm ↦ hc _ _ hn (binding_mem_successors hb hm)
    have houter : ∀ d ∈ (s.scope e).outer, A (.scope d) :=
      fun d hd ↦ hc _ _ hn (outer_mem_successors hd)
    exact .scope ⟨List.forall₂_same.2 fun b hb ↦ ⟨rfl, b.2.matches_identity (hbinding b hb)⟩,
      List.forall₂_same.2 fun d hd ↦ ⟨rfl, houter d hd⟩⟩

/-- Two stores that have grown from one have what was there in common. -/
theorem mirrors_of_extendedBy (hc : s.ClosedUnder A) (hA : ∀ n, A n → s.Contains n)
    (ht : s.ExtendedBy t) (hu : s.ExtendedBy u) : Mirrors (.identity A) t u where
  contains h := by
    obtain ⟨rfl, hn⟩ := h
    exact ⟨(hA _ hn).mono ht.precedes, (hA _ hn).mono hu.precedes⟩
  unique h h' := by
    obtain ⟨rfl, -⟩ := h
    obtain ⟨rfl, -⟩ := h'
    exact Iff.rfl
  content h := by
    obtain ⟨rfl, hn⟩ := h
    exact (matchesAt_identity hc hn).of_extendedBy (hA _ hn) (hA _ hn) ht hu

theorem Mirrors.lookup_builtin {b : Builtin} (h : Mirrors M s t) (hde : M (.scope d) (.scope e))
    (hl : s.lookup d name = some (.builtin b)) : t.lookup e name = some (.builtin b) := by
  have hrel := h.lookup hde name
  rw [hl] at hrel
  generalize t.lookup e name = found at hrel
  cases hrel with
  | some hvw => cases hvw; rfl

/-- A name of a scope for a new closure. -/
def defineClosure (s : Store) (e : Address) (name : String) (c : Closure) : Store :=
  (s.newClosure c).2.bindHere e name (s.newClosure c).1

/-- In the later store a name of a scope stands for a new closure, and as far as the earlier store
goes nothing else has changed. -/
structure GainsClosure (s : Store) (e : Address) (name : String) (c : Closure) (t : Store) :
    Prop where
  pair_eq {p : Address} (hp : p < s.pairs.size) : t.pair p = s.pair p
  closure_eq {a : Address} (ha : a < s.closures.size) : t.closure a = s.closure a
  scope_eq {d : Address} (hd : d < s.scopes.size) (hne : d ≠ e) : t.scope d = s.scope d
  bound : ∃ a, ¬ s.Contains (.closure a) ∧ t.Contains (.closure a) ∧ t.closure a = c ∧
    t.scope e = ⟨Bindings.insert name (.closure a) (s.scope e).bindings, (s.scope e).outer⟩

theorem ExtendedBy.gainsClosure (h : s.ExtendedBy t) (he : e < s.scopes.size) (name : String)
    (c : Closure) : s.GainsClosure e name c (t.defineClosure e name c) where
  pair_eq := h.pair_eq
  closure_eq ha := by
    have hlt := Nat.lt_of_lt_of_le ha h.precedes.closures_le
    exact (closure_newClosure_of_lt c hlt).trans (h.precedes.closure_eq ha)
  scope_eq hd hne := (scope_bindHere_of_ne _ _ hne).trans (h.scope_eq hd)
  bound := by
    refine ⟨t.closures.size, Nat.not_lt.2 h.precedes.closures_le,
      contains_newClosure.2 (.inl rfl), closure_newClosure_size t c, ?_⟩
    have hlt : e < (t.newClosure c).2.scopes.size := Nat.lt_of_lt_of_le he h.precedes.scopes_le
    rw [← h.scope_eq he]
    exact scope_bindHere_self name _ hlt

theorem Mirrors.defineClosure (h : Mirrors M s t) (hde : M (.scope d) (.scope e))
    (hc : c.Matches M c') (name : String) :
    ∃ N, Advances M s t N (s.defineClosure d name c) (t.defineClosure e name c') := by
  obtain ⟨N, hN, hvw⟩ := h.newClosure hc
  exact ⟨N, hN.trans (hN.mirrors.bindHere (hN.le _ _ hde) hvw name)⟩

end Store

end MiniScheme
