import MiniScheme.Proofs.Store.Precede

namespace MiniScheme

namespace Bindings

variable {bindings : Bindings} {name other : String}

theorem names_insert_of_mem (h : name ∈ names bindings) (v : Value) :
    names (insert name v bindings) = names bindings := by
  induction bindings with
  | nil => cases h
  | cons b rest ih =>
    obtain ⟨n, w⟩ := b
    by_cases hn : n = name
    · simp [insert, names, hn]
    · have hrest : name ∈ names rest := by
        simpa [names, Ne.symm hn] using h
      rw [insert, if_neg hn]
      exact congrArg (n :: ·) (ih hrest)

theorem names_insert_of_notMem (h : name ∉ names bindings) (v : Value) :
    names (insert name v bindings) = names bindings ++ [name] := by
  induction bindings with
  | nil => rfl
  | cons b rest ih =>
    obtain ⟨n, w⟩ := b
    obtain ⟨hn, hrest⟩ := not_or.1 (mt List.mem_cons.2 h)
    rw [insert, if_neg (Ne.symm hn)]
    exact congrArg (n :: ·) (ih hrest)

theorem mem_names_insert_iff (v : Value) :
    other ∈ names (insert name v bindings) ↔ other = name ∨ other ∈ names bindings := by
  by_cases h : name ∈ names bindings
  · rw [names_insert_of_mem h, or_iff_right_of_imp]
    rintro rfl
    exact h
  · rw [names_insert_of_notMem h, List.mem_append, List.mem_singleton, or_comm]

theorem mem_names_insert (h : other ∈ names bindings) (name : String) (v : Value) :
    other ∈ names (insert name v bindings) :=
  (mem_names_insert_iff v).2 (.inr h)

theorem nodup_names_insert (h : (names bindings).Nodup) (name : String) (v : Value) :
    (names (insert name v bindings)).Nodup := by
  by_cases hn : name ∈ names bindings
  · rwa [names_insert_of_mem hn]
  · rw [names_insert_of_notMem hn]
    refine List.nodup_append.2 ⟨h, List.pairwise_singleton _ name, fun a ha b hb ↦ ?_⟩
    rintro rfl
    exact hn (List.mem_singleton.1 hb ▸ ha)

theorem isSome_lookup_iff : (bindings.lookup name).isSome = true ↔ name ∈ names bindings := by
  induction bindings with
  | nil => simp [names]
  | cons b rest ih =>
    obtain ⟨n, w⟩ := b
    rw [names, List.map_cons, List.mem_cons, ← names, ← ih, List.lookup_cons]
    by_cases hn : name = n
    · simp [hn]
    · rw [beq_false_of_ne hn, or_iff_right hn]

theorem mem_names_of_isSome_lookup (h : (bindings.lookup name).isSome = true) :
    name ∈ names bindings :=
  isSome_lookup_iff.1 h

theorem mem_insert {v w : Value} (h : (other, w) ∈ insert name v bindings) :
    (other = name ∧ w = v) ∨ (other, w) ∈ bindings := by
  induction bindings with
  | nil =>
    rw [insert, List.mem_singleton, Prod.mk.injEq] at h
    exact .inl h
  | cons b rest ih =>
    obtain ⟨n, u⟩ := b
    by_cases hn : n = name
    · rw [insert, if_pos hn, List.mem_cons, Prod.mk.injEq, hn] at h
      exact h.imp_right (List.mem_cons_of_mem _)
    · rw [insert, if_neg hn] at h
      rcases List.mem_cons.1 h with he | hrest
      · exact .inr (he ▸ List.mem_cons_self)
      · exact (ih hrest).imp_right (List.mem_cons_of_mem _)

end Bindings

namespace Store

/-- The names bound in the very scope given. -/
def names (s : Store) (e : Address) : List String := Bindings.names (s.scope e).bindings

variable {s t u : Store} {d e : Address}

theorem names_bindHere_of_ne (name : String) (v : Value) (h : d ≠ e) :
    (s.bindHere e name v).names d = s.names d := by
  rw [names, names, scope_bindHere_of_ne name v h]

theorem names_subset_bindHere (s : Store) (d e : Address) (name : String) (v : Value) :
    s.names d ⊆ (s.bindHere e name v).names d := by
  intro other h
  by_cases hd : d = e
  · subst hd
    rcases Nat.lt_or_ge d s.scopes.size with hlt | hge
    · rw [names, scope_bindHere_self name v hlt]
      exact Bindings.mem_names_insert h name v
    · rwa [bindHere_of_size_le name v hge]
  · rwa [names_bindHere_of_ne name v hd]

theorem mem_names_bindHere_self {name other : String} (v : Value) (h : e < s.scopes.size) :
    other ∈ (s.bindHere e name v).names e ↔ other = name ∨ other ∈ s.names e := by
  rw [names, scope_bindHere_self name v h]
  exact Bindings.mem_names_insert_iff v

theorem nodup_names_bindHere (h : (s.names d).Nodup) (e : Address) (name : String) (v : Value) :
    ((s.bindHere e name v).names d).Nodup := by
  by_cases hd : d = e
  · subst hd
    rcases Nat.lt_or_ge d s.scopes.size with hlt | hge
    · rw [names, scope_bindHere_self name v hlt]
      exact Bindings.nodup_names_insert h name v
    · rwa [bindHere_of_size_le name v hge]
  · rwa [names_bindHere_of_ne name v hd]

/-- Binding a name anew does not show in the names. -/
theorem names_bindHere_of_mem {name : String} (v : Value) (h : name ∈ s.names e) :
    (s.bindHere e name v).names d = s.names d := by
  by_cases hd : d = e
  · subst hd
    rcases Nat.lt_or_ge d s.scopes.size with hlt | hge
    · rw [names, scope_bindHere_self name v hlt]
      exact Bindings.names_insert_of_mem h v
    · rw [bindHere_of_size_le name v hge]
  · exact names_bindHere_of_ne name v hd

theorem names_assign {name : String} {v : Value} (h : s.assign e name v = some t)
    (d : Address) : t.names d = s.names d := by
  obtain ⟨a, ha, rfl⟩ := Option.map_eq_some_iff.1 h
  have hbound : (s.lookupHere a name).isSome = true := by
    rw [holder] at ha
    exact List.find?_some (p := fun a ↦ (s.lookupHere a name).isSome) ha
  exact names_bindHere_of_mem v (Bindings.mem_names_of_isSome_lookup hbound)

theorem names_newScope_of_lt (scope : Scope) (h : d < s.scopes.size) :
    (s.newScope scope).2.names d = s.names d := by
  rw [names, names, scope_newScope_of_lt scope h]

theorem names_bindAll_of_ne (bs : List (String × Value)) (h : d ≠ e) :
    (s.bindAll e bs).names d = s.names d := by
  induction bs generalizing s with
  | nil => rfl
  | cons b bs ih => exact ih.trans (names_bindHere_of_ne b.1 b.2 h)

theorem names_openScope_of_lt (parent : Address) (bs : List (String × Value))
    (h : d < s.scopes.size) : (s.openScope parent bs).2.names d = s.names d :=
  (names_bindAll_of_ne bs (Nat.ne_of_lt h)).trans (names_newScope_of_lt _ h)

theorem names_of_size_le (h : s.scopes.size ≤ d) : s.names d = [] := by
  simp [names, scope, Nat.not_lt.2 h, Bindings.names]

/-- Nothing but the given scope has other names than before, and that one has lost none. -/
structure ConfinesNames (s : Store) (e : Address) (t : Store) : Prop where
  names_eq {d : Address} (h : d < s.scopes.size) (hd : d ≠ e) : t.names d = s.names d
  names_subset : s.names e ⊆ t.names e

theorem ConfinesNames.refl (s : Store) (e : Address) : s.ConfinesNames e s :=
  ⟨fun _ _ ↦ rfl, fun _ h ↦ h⟩

theorem ConfinesNames.of_names_eq (h : s.ConfinesNames e t)
    (ht : ∀ d < s.scopes.size, u.names d = t.names d) : s.ConfinesNames e u where
  names_eq hd hne := (ht _ hd).trans (h.names_eq hd hne)
  names_subset := by
    rcases Nat.lt_or_ge e s.scopes.size with hlt | hge
    · rw [ht e hlt]
      exact h.names_subset
    · rw [names_of_size_le hge]
      exact List.nil_subset _

/-- A name may be bound in the given scope, and in scopes that are new. -/
theorem ConfinesNames.bindHere (h : s.ConfinesNames e t) (hd : d = e ∨ s.scopes.size ≤ d)
    (name : String) (v : Value) : s.ConfinesNames e (t.bindHere d name v) where
  names_eq {a} ha hne := by
    have had : a ≠ d := by
      rcases hd with rfl | hd
      · exact hne
      · exact Nat.ne_of_lt (Nat.lt_of_lt_of_le ha hd)
    exact (names_bindHere_of_ne name v had).trans (h.names_eq ha hne)
  names_subset := fun _ hn ↦ names_subset_bindHere t e d name v (h.names_subset hn)

end Store

end MiniScheme
