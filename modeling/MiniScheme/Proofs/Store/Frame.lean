import MiniScheme.Proofs.Store.Reach

namespace MiniScheme.Store

/-- The nodes of a kind, and those that have been made since an earlier store. -/
def OrNew (A : Node → Prop) (s t : Store) (n : Node) : Prop :=
  A n ∨ ¬ s.Contains n ∧ t.Contains n

/-- From the earlier store to the later one only nodes of the kind have changed, and they lead to no
others except new ones. -/
structure TouchesOnly (s : Store) (A : Node → Prop) (t : Store) : Prop where
  precedes : s.Precedes t
  closed : t.ClosedUnder (OrNew A s t)
  pair_eq {p : Address} (hp : p < s.pairs.size) (ha : ¬ A (.pair p)) : t.pair p = s.pair p
  scope_eq {e : Address} (he : e < s.scopes.size) (ha : ¬ A (.scope e)) : t.scope e = s.scope e

variable {s t u : Store} {A : Node → Prop} {n m : Node} {v w : Value}

theorem OrNew.mono (h : OrNew A s t n) (hs : t.Precedes u) : OrNew A s u n :=
  h.imp_right (And.imp_right (·.mono hs))

theorem OrNew.old (h : OrNew A s t n) (hs : s.Contains n) : A n :=
  h.resolve_right fun hn ↦ hn.1 hs

theorem not_contains_of_precedes (hs : s.Precedes t) (h : ¬ t.Contains n) : ¬ s.Contains n :=
  fun hn ↦ h (hn.mono hs)

theorem touchesOnly_refl (h : s.ClosedUnder A) : s.TouchesOnly A s where
  precedes := .refl s
  closed n m hn hm := by
    rcases hn with ha | ⟨hnot, hcontains⟩
    · exact .inl (h n m ha hm)
    · exact absurd hcontains hnot
  pair_eq _ _ := rfl
  scope_eq _ _ := rfl

/-- One change: where a node now leads, it has led before or that is of the kind or new. -/
theorem TouchesOnly.step (h : s.TouchesOnly A t) (hs : t.Precedes u)
    (hk : ∀ n m, OrNew A s u n → m ∈ u.successors n →
      OrNew A s t n ∧ m ∈ t.successors n ∨ OrNew A s u m)
    (hp : ∀ p < s.pairs.size, ¬ A (.pair p) → u.pair p = t.pair p)
    (he : ∀ e < s.scopes.size, ¬ A (.scope e) → u.scope e = t.scope e) : s.TouchesOnly A u where
  precedes := h.precedes.trans hs
  closed n m hn hm := by
    rcases hk n m hn hm with ⟨hold, hm⟩ | hnew
    · exact (h.closed n m hold hm).mono hs
    · exact hnew
  pair_eq hlt ha := (hp _ hlt ha).trans (h.pair_eq hlt ha)
  scope_eq hlt ha := (he _ hlt ha).trans (h.scope_eq hlt ha)

theorem OrNew.of_ne {new : Node} (h : OrNew A s u n) (hne : n ≠ new)
    (hc : u.Contains n ↔ n = new ∨ t.Contains n) : OrNew A s t n :=
  h.imp_right (And.imp_right fun hu ↦ (hc.1 hu).resolve_left hne)

theorem OrNew.fresh {new : Node} (hs : s.Precedes t) (ht : ¬ t.Contains new)
    (hu : u.Contains new) : OrNew A s u new :=
  .inr ⟨not_contains_of_precedes hs ht, hu⟩

theorem not_contains_pair_size (s : Store) : ¬ s.Contains (.pair s.pairs.size) :=
  Nat.lt_irrefl _

theorem not_contains_closure_size (s : Store) : ¬ s.Contains (.closure s.closures.size) :=
  Nat.lt_irrefl _

theorem not_contains_scope_size (s : Store) : ¬ s.Contains (.scope s.scopes.size) :=
  Nat.lt_irrefl _

theorem TouchesOnly.cons (h : s.TouchesOnly A t) (hv : Within (OrNew A s t) v)
    (hw : Within (OrNew A s t) w) : s.TouchesOnly A (t.cons v w).2 := by
  have hs := precedes_cons t v w
  refine h.step hs (fun n m hn hm ↦ ?_) (fun p hp _ ↦ ?_) fun _ _ _ ↦ rfl
  · rcases mem_successors_cons hm with ⟨hne, hm⟩ | hm | hm
    · exact .inl ⟨hn.of_ne hne contains_cons, hm⟩
    · exact .inr ((hv m hm).mono hs)
    · exact .inr ((hw m hm).mono hs)
  · exact pair_cons_of_lt v w (Nat.lt_of_lt_of_le hp h.precedes.pairs_le)

theorem TouchesOnly.within_cons (h : s.TouchesOnly A t) (v w : Value) :
    Within (OrNew A s (t.cons v w).2) (t.cons v w).1 := by
  rintro _ ⟨⟩
  exact .fresh h.precedes (not_contains_pair_size t) (contains_cons.2 (.inl rfl))

/-- A change in which nothing is made, and one value is stored somewhere. -/
theorem TouchesOnly.overwrite (h : s.TouchesOnly A t) (hs : t.Precedes u)
    (hc : ∀ n, u.Contains n → t.Contains n) (hv : Within (OrNew A s t) v)
    (hm : ∀ n m, m ∈ u.successors n → m ∈ t.successors n ∨ v.node? = some m)
    (hp : ∀ p < s.pairs.size, ¬ A (.pair p) → u.pair p = t.pair p)
    (he : ∀ e < s.scopes.size, ¬ A (.scope e) → u.scope e = t.scope e) : s.TouchesOnly A u := by
  refine h.step hs (fun n m hn hu ↦ ?_) hp he
  rcases hm n m hu with ht | hnode
  · exact .inl ⟨hn.imp_right (And.imp_right (hc n)), ht⟩
  · exact .inr ((hv m hnode).mono hs)

theorem TouchesOnly.setFirst (h : s.TouchesOnly A t) {p : Address}
    (hp : OrNew A s t (.pair p)) (hv : Within (OrNew A s t) v) :
    s.TouchesOnly A (t.setFirst p v) := by
  refine h.overwrite (precedes_setFirst t p v) (fun n ↦ ?_) hv
    (fun _ _ ↦ mem_successors_setFirst) (fun q hq ha ↦ ?_) fun _ _ _ ↦ rfl
  · cases n <;> simp [Contains, Store.setFirst]
  · refine pair_setFirst_of_ne v ?_
    rintro rfl
    exact ha (hp.old hq)

theorem TouchesOnly.setSecond (h : s.TouchesOnly A t) {p : Address}
    (hp : OrNew A s t (.pair p)) (hv : Within (OrNew A s t) v) :
    s.TouchesOnly A (t.setSecond p v) := by
  refine h.overwrite (precedes_setSecond t p v) (fun n ↦ ?_) hv
    (fun _ _ ↦ mem_successors_setSecond) (fun q hq ha ↦ ?_) fun _ _ _ ↦ rfl
  · cases n <;> simp [Contains, Store.setSecond]
  · refine pair_setSecond_of_ne v ?_
    rintro rfl
    exact ha (hp.old hq)

theorem TouchesOnly.newClosure (h : s.TouchesOnly A t) {c : Closure}
    (hb : ∀ v ∈ c.body, Within (OrNew A s t) v) (he : OrNew A s t (.scope c.scope)) :
    s.TouchesOnly A (t.newClosure c).2 := by
  have hs := precedes_newClosure t c
  refine h.step hs (fun n m hn hm ↦ ?_) (fun _ _ _ ↦ rfl) fun _ _ _ ↦ rfl
  rcases mem_successors_newClosure hm with ⟨hne, hm⟩ | rfl | ⟨v, hv, hm⟩
  · exact .inl ⟨hn.of_ne hne contains_newClosure, hm⟩
  · exact .inr (he.mono hs)
  · exact .inr ((hb v hv m hm).mono hs)

theorem TouchesOnly.within_newClosure (h : s.TouchesOnly A t) (c : Closure) :
    Within (OrNew A s (t.newClosure c).2) (t.newClosure c).1 := by
  rintro _ ⟨⟩
  exact .fresh h.precedes (not_contains_closure_size t) (contains_newClosure.2 (.inl rfl))

theorem TouchesOnly.newChild (h : s.TouchesOnly A t) {parent : Address}
    (hp : OrNew A s t (.scope parent)) : s.TouchesOnly A (t.newChild parent).2 := by
  have hs := precedes_newScope t ⟨[], t.chain parent⟩
  refine h.step hs (fun n m hn hm ↦ ?_) (fun _ _ _ ↦ rfl) (fun e he _ ↦ ?_)
  · rcases mem_successors_newChild hm with ⟨hne, hm⟩ | ⟨d, hd, rfl⟩
    · exact .inl ⟨hn.of_ne hne contains_newScope, hm⟩
    · exact .inr ((h.closed.chain hp hd).mono hs)
  · exact scope_newScope_of_lt _ (Nat.lt_of_lt_of_le he h.precedes.scopes_le)

theorem TouchesOnly.bindHere (h : s.TouchesOnly A t) {e : Address} (he : OrNew A s t (.scope e))
    (hv : Within (OrNew A s t) v) (name : String) : s.TouchesOnly A (t.bindHere e name v) := by
  refine h.overwrite (precedes_bindHere t e name v) (fun n ↦ ?_) hv
    (fun _ _ ↦ mem_successors_bindHere) (fun _ _ _ ↦ rfl) (fun d hd ha ↦ ?_)
  · cases n <;> simp [Contains, Store.bindHere]
  · refine scope_bindHere_of_ne name v ?_
    rintro rfl
    exact ha (he.old hd)

theorem TouchesOnly.bindAll (h : s.TouchesOnly A t) {e : Address} (he : OrNew A s t (.scope e))
    {bs : List (String × Value)} (hb : ∀ b ∈ bs, Within (OrNew A s t) b.2) :
    s.TouchesOnly A (t.bindAll e bs) := by
  induction bs generalizing t with
  | nil => exact h
  | cons b bs ih =>
    obtain ⟨hfirst, hrest⟩ := List.forall_mem_cons.1 hb
    have hs := precedes_bindHere t e b.1 b.2
    exact ih (h.bindHere he hfirst b.1) (he.mono hs) fun c hc ↦
      (hrest c hc).mono fun _ hn ↦ hn.mono hs

theorem TouchesOnly.orNew_openScope (h : s.TouchesOnly A t) (parent : Address)
    (bs : List (String × Value)) :
    OrNew A s (t.openScope parent bs).2 (.scope (t.openScope parent bs).1) :=
  .fresh h.precedes (not_contains_scope_size t) (openScope_lt t parent bs)

theorem TouchesOnly.openScope (h : s.TouchesOnly A t) {parent : Address}
    (hp : OrNew A s t (.scope parent)) {bs : List (String × Value)}
    (hb : ∀ b ∈ bs, Within (OrNew A s t) b.2) : s.TouchesOnly A (t.openScope parent bs).2 := by
  have hs := precedes_newScope t ⟨[], t.chain parent⟩
  have hnew : OrNew A s (t.newChild parent).2 (.scope t.scopes.size) :=
    .fresh h.precedes (not_contains_scope_size t) (contains_newScope.2 (.inl rfl))
  exact (h.newChild hp).bindAll hnew fun b hm ↦ (hb b hm).mono fun _ hn ↦ hn.mono hs

theorem TouchesOnly.assign (h : s.TouchesOnly A t) {e : Address} (he : OrNew A s t (.scope e))
    (hv : Within (OrNew A s t) v) {name : String} (ha : t.assign e name v = some u) :
    s.TouchesOnly A u := by
  obtain ⟨a, hh, rfl⟩ := Option.map_eq_some_iff.1 ha
  rw [holder] at hh
  exact h.bindHere (h.closed.chain he (List.mem_of_find?_eq_some hh)) hv name

end MiniScheme.Store
