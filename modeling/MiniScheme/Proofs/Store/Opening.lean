import MiniScheme.Proofs.Store.Extend
import MiniScheme.Proofs.Store.Naming

namespace MiniScheme.Store

variable {s : Store} {d e : Address} {name : String}

section BindAll

variable {bs : List (String × Value)}

theorem size_scopes_bindAll (s : Store) (e : Address) (bs : List (String × Value)) :
    (s.bindAll e bs).scopes.size = s.scopes.size := by
  induction bs generalizing s with
  | nil => rfl
  | cons b bs ih => rw [bindAll, ih, size_scopes_bindHere]

theorem pairs_bindAll (s : Store) (e : Address) (bs : List (String × Value)) :
    (s.bindAll e bs).pairs = s.pairs := by
  induction bs generalizing s with
  | nil => rfl
  | cons b bs ih => rw [bindAll, ih, bindHere]

theorem closures_bindAll (s : Store) (e : Address) (bs : List (String × Value)) :
    (s.bindAll e bs).closures = s.closures := by
  induction bs generalizing s with
  | nil => rfl
  | cons b bs ih => rw [bindAll, ih, bindHere]

theorem chain_bindAll (s : Store) (d e : Address) (bs : List (String × Value)) :
    (s.bindAll e bs).chain d = s.chain d := by
  induction bs generalizing s with
  | nil => rfl
  | cons b bs ih => rw [bindAll, ih, chain_bindHere]

theorem nodup_names_bindAll (h : (s.names d).Nodup) (e : Address) (bs : List (String × Value)) :
    ((s.bindAll e bs).names d).Nodup := by
  induction bs generalizing s with
  | nil => exact h
  | cons b bs ih => exact ih (nodup_names_bindHere h e b.1 b.2)

theorem mem_names_bindAll_self (h : e < s.scopes.size) :
    name ∈ (s.bindAll e bs).names e ↔ name ∈ bs.map Prod.fst ∨ name ∈ s.names e := by
  induction bs generalizing s with
  | nil => simp [bindAll]
  | cons b bs ih =>
    have hsize : e < (s.bindHere e b.1 b.2).scopes.size := by rwa [size_scopes_bindHere]
    rw [bindAll, ih hsize, mem_names_bindHere_self b.2 h, List.map_cons, List.mem_cons]
    rw [← or_assoc, @or_comm _ (name = b.1)]

theorem lookupHere_bindAll_of_notMem (h : name ∉ bs.map Prod.fst) :
    (s.bindAll e bs).lookupHere d name = s.lookupHere d name := by
  induction bs generalizing s with
  | nil => rfl
  | cons b bs ih =>
    obtain ⟨hne, hrest⟩ := not_or.1 (mt List.mem_cons.2 h)
    rw [bindAll, ih hrest, lookupHere_bindHere_of_ne b.2 (.inr hne)]

/-- Of several bindings of one name the last counts. -/
theorem lookupHere_bindAll_zip {before after : List String} {vs : List Value}
    (h : e < s.scopes.size) (hlen : vs.length = (before ++ name :: after).length)
    (hn : name ∉ after) :
    (s.bindAll e ((before ++ name :: after).zip vs)).lookupHere e name = vs[before.length]? := by
  induction before generalizing s vs with
  | nil =>
    obtain ⟨v, vs, rfl⟩ := List.exists_cons_of_length_eq_add_one hlen
    have hrest : name ∉ (after.zip vs).map Prod.fst := by
      rwa [List.map_fst_zip (Nat.le_of_eq (Nat.succ.inj hlen).symm)]
    rw [List.nil_append, List.zip_cons_cons, bindAll, lookupHere_bindAll_of_notMem hrest,
      lookupHere_bindHere_self name v h]
    rfl
  | cons n before ih =>
    obtain ⟨v, vs, rfl⟩ := List.exists_cons_of_length_eq_add_one hlen
    exact ih (by rwa [size_scopes_bindHere]) (Nat.succ.inj hlen)

theorem bindHere_newScope (s : Store) (scope : Scope) (name : String) (v : Value) :
    (s.newScope scope).2.bindHere s.scopes.size name v =
      (s.newScope ⟨Bindings.insert name v scope.bindings, scope.outer⟩).2 := by
  rw [bindHere, newScope, newScope]
  congr 1
  apply Array.ext
  · simp
  · intro i hi _
    rw [Array.getElem_modify]
    rcases Nat.lt_or_ge i s.scopes.size with hlt | hge
    · rw [if_neg (Nat.ne_of_gt hlt), Array.getElem_push_lt hlt, Array.getElem_push_lt hlt]
    · have heq : i = s.scopes.size := by
        simp at hi
        omega
      subst heq
      simp

theorem bindAll_newScope (s : Store) (scope : Scope) (bs : List (String × Value)) :
    (s.newScope scope).2.bindAll s.scopes.size bs =
      (s.newScope ⟨bs.foldl (fun bindings b ↦ Bindings.insert b.1 b.2 bindings) scope.bindings,
        scope.outer⟩).2 := by
  induction bs generalizing scope with
  | nil => rfl
  | cons b bs ih => rw [bindAll, bindHere_newScope, ih, List.foldl_cons]

/-- The global scope is a root in which the built-ins are bound one after another. -/
theorem newGlobal_eq (s : Store) :
    s.newGlobal = (s.newRoot.1, s.newRoot.2.bindAll s.newRoot.1
      (Builtin.all.map fun b ↦ (b.name, .builtin b))) := by
  have hfold : (Builtin.all.map fun b ↦ (b.name, Value.builtin b)).foldl
      (fun bindings b ↦ Bindings.insert b.1 b.2 bindings) [] =
      Builtin.all.map fun b ↦ (b.name, .builtin b) := rfl
  refine Prod.ext rfl ?_
  change _ = (s.newScope ⟨[], []⟩).2.bindAll s.scopes.size _
  rw [bindAll_newScope, hfold]
  rfl

end BindAll

/-- The later store has one scope more, right inside the given one. The names bound in it are those
given, each once and with the value at its last place. -/
structure OpensInside (s : Store) (parent : Address) (names : List String) (vs : List Value)
    (inner : Address) (t : Store) : Prop where
  pairs_eq : t.pairs = s.pairs
  closures_eq : t.closures = s.closures
  inner_eq : inner = s.scopes.size
  size_eq : t.scopes.size = s.scopes.size + 1
  scope_eq {e : Address} (h : e < s.scopes.size) : t.scope e = s.scope e
  chain_eq : t.chain inner = inner :: s.chain parent
  nodup_names : (t.names inner).Nodup
  mem_names {name : String} : name ∈ t.names inner ↔ name ∈ names
  lookupHere_eq {before after : List String} {name : String}
    (h : names = before ++ name :: after) (hn : name ∉ after) :
    t.lookupHere inner name = vs[before.length]?

theorem opensInside_openScope (s : Store) (parent : Address) {names : List String}
    {vs : List Value} (hlen : vs.length = names.length) :
    s.OpensInside parent names vs (s.openScope parent (names.zip vs)).1
      (s.openScope parent (names.zip vs)).2 := by
  have hlt : s.scopes.size < (s.newChild parent).2.scopes.size := by
    rw [newChild, newScope, Array.size_push]
    exact Nat.lt_succ_self _
  have hnew : (s.newChild parent).2.scope s.scopes.size = ⟨[], s.chain parent⟩ :=
    scope_newScope_size s _
  have hnone : (s.newChild parent).2.names s.scopes.size = [] := by
    rw [Store.names, hnew]
    rfl
  have hfst : (names.zip vs).map Prod.fst = names := List.map_fst_zip (Nat.le_of_eq hlen.symm)
  exact {
    pairs_eq := pairs_bindAll _ _ _
    closures_eq := closures_bindAll _ _ _
    inner_eq := rfl
    size_eq := (size_scopes_bindAll _ _ _).trans (Array.size_push _)
    scope_eq := (extendedBy_openScope s parent (names.zip vs)).scope_eq
    chain_eq := by
      refine (chain_bindAll _ _ _ _).trans (congrArg (s.scopes.size :: ·) ?_)
      exact congrArg Scope.outer hnew
    nodup_names := nodup_names_bindAll (hnone ▸ List.nodup_nil) _ _
    mem_names := by
      intro name
      refine (mem_names_bindAll_self hlt).trans ?_
      rw [hfst, hnone, or_iff_left List.not_mem_nil]
    lookupHere_eq := by
      rintro before after name rfl hn
      exact lookupHere_bindAll_zip hlt hlen hn
  }

end MiniScheme.Store
