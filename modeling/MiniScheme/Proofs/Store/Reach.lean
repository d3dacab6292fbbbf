import MiniScheme.Proofs.Store.Naming
import Mathlib.Logic.Relation

namespace MiniScheme

/-- Something that has an identity, by its address. -/
inductive Node
  | pair (p : Address)
  | closure (c : Address)
  | scope (e : Address)
  deriving DecidableEq, Repr

def Value.node? : Value → Option Node
  | .pair p => some (.pair p)
  | .closure c => some (.closure c)
  | _ => none

namespace Store

def Contains (s : Store) : Node → Prop
  | .pair p => p < s.pairs.size
  | .closure c => c < s.closures.size
  | .scope e => e < s.scopes.size

/-- What a node leads to at once: a pair to what is in its slots, a closure to its body and to the
scope it remembers, a scope to its bindings and to its parent. A scope lists all scopes around it,
so those that its parent leads to are named here as well. -/
def successors (s : Store) : Node → List Node
  | .pair p => [s.first p, s.second p].filterMap Value.node?
  | .closure c => .scope (s.closure c).scope :: (s.closure c).body.filterMap Value.node?
  | .scope e =>
    (s.scope e).outer.map .scope ++ (s.scope e).bindings.filterMap fun b ↦ b.2.node?

/-- A node can be reached from some of the given ones. -/
def Reaches (s : Store) (roots : List Node) (n : Node) : Prop :=
  ∃ root ∈ roots, Relation.ReflTransGen (fun m m' ↦ m' ∈ s.successors m) root n

/-- Nodes of the given kind lead to such nodes only. -/
def ClosedUnder (s : Store) (A : Node → Prop) : Prop :=
  ∀ n m, A n → m ∈ s.successors n → A m

variable {s t : Store} {A B : Node → Prop} {n m : Node} {roots : List Node} {v w : Value}

theorem closedUnder_reaches (s : Store) (roots : List Node) : s.ClosedUnder (s.Reaches roots) := by
  rintro n m ⟨root, hr, hn⟩ hm
  exact ⟨root, hr, hn.tail hm⟩

theorem reaches_of_mem (h : n ∈ roots) : s.Reaches roots n := ⟨n, h, .refl⟩

theorem Reaches.of_closedUnder (h : s.Reaches roots n) (hc : s.ClosedUnder A)
    (hr : ∀ root ∈ roots, A root) : A n := by
  obtain ⟨root, hm, hp⟩ := h
  induction hp with
  | refl => exact hr root hm
  | tail _ hs ih => exact hc _ _ ih hs

theorem Contains.mono (h : s.Contains n) (hs : s.Precedes t) : t.Contains n := by
  cases n with
  | pair p => exact Nat.lt_of_lt_of_le h hs.pairs_le
  | closure c => exact Nat.lt_of_lt_of_le h hs.closures_le
  | scope e => exact Nat.lt_of_lt_of_le h hs.scopes_le

/-- Where nothing is, nothing leads on, except that a closure which is not there remembers scope
0. -/
theorem closedUnder_of_forall_lt
    (hp : ∀ p < s.pairs.size, A (.pair p) → ∀ m ∈ s.successors (.pair p), A m)
    (hc : ∀ c < s.closures.size, A (.closure c) → ∀ m ∈ s.successors (.closure c), A m)
    (he : ∀ e < s.scopes.size, A (.scope e) → ∀ m ∈ s.successors (.scope e), A m)
    (hzero : A (.scope 0)) : s.ClosedUnder A := by
  rintro (p | c | e) m hn hm
  · by_cases h : p < s.pairs.size
    · exact hp p h hn m hm
    · simp [successors, first, second, pair, h, Value.node?] at hm
  · by_cases h : c < s.closures.size
    · exact hc c h hn m hm
    · have : m = .scope 0 := by simpa [successors, closure, h] using hm
      exact this ▸ hzero
  · by_cases h : e < s.scopes.size
    · exact he e h hn m hm
    · simp [successors, scope, h] at hm

section Members

theorem first_mem_successors {p : Address} (h : (s.first p).node? = some n) :
    n ∈ s.successors (.pair p) :=
  List.mem_filterMap.2 ⟨_, by simp, h⟩

theorem second_mem_successors {p : Address} (h : (s.second p).node? = some n) :
    n ∈ s.successors (.pair p) :=
  List.mem_filterMap.2 ⟨_, by simp, h⟩

theorem captured_mem_successors (s : Store) (c : Address) :
    .scope (s.closure c).scope ∈ s.successors (.closure c) :=
  List.mem_cons_self

theorem body_mem_successors {c : Address} (hv : v ∈ (s.closure c).body)
    (h : v.node? = some n) : n ∈ s.successors (.closure c) :=
  List.mem_cons_of_mem _ (List.mem_filterMap.2 ⟨v, hv, h⟩)

theorem outer_mem_successors {d e : Address} (h : d ∈ (s.scope e).outer) :
    .scope d ∈ s.successors (.scope e) :=
  List.mem_append_left _ (List.mem_map_of_mem h)

theorem binding_mem_successors {e : Address} {name : String}
    (hv : (name, v) ∈ (s.scope e).bindings) (h : v.node? = some n) :
    n ∈ s.successors (.scope e) :=
  List.mem_append_right _ (List.mem_filterMap.2 ⟨(name, v), hv, h⟩)

end Members

/-- The node of a value, if it has one, is of the given kind. -/
def Within (A : Node → Prop) (v : Value) : Prop := ∀ n, v.node? = some n → A n

theorem Within.mono (h : Within A v) (hAB : ∀ n, A n → B n) : Within B v :=
  fun n hn ↦ hAB n (h n hn)

theorem ClosedUnder.first {p : Address} (hc : s.ClosedUnder A) (h : Within A (.pair p)) :
    Within A (s.first p) :=
  fun _ hn ↦ hc _ _ (h _ rfl) (first_mem_successors hn)

theorem ClosedUnder.second {p : Address} (hc : s.ClosedUnder A) (h : Within A (.pair p)) :
    Within A (s.second p) :=
  fun _ hn ↦ hc _ _ (h _ rfl) (second_mem_successors hn)

theorem ClosedUnder.chain {d e : Address} (hc : s.ClosedUnder A) (he : A (.scope e))
    (hd : d ∈ s.chain e) : A (.scope d) := by
  rcases List.mem_cons.1 hd with rfl | hd
  · exact he
  · exact hc _ _ he (outer_mem_successors hd)

theorem ClosedUnder.lookup {e : Address} {name : String} (hc : s.ClosedUnder A)
    (he : A (.scope e)) (hl : s.lookup e name = some v) : Within A v := by
  obtain ⟨d, hd, hv⟩ := List.exists_of_findSome?_eq_some hl
  obtain ⟨before, after, hb, -⟩ := List.lookup_eq_some_iff.1 hv
  have hm : (name, v) ∈ (s.scope d).bindings := by simp [hb]
  exact fun n hn ↦ hc _ _ (hc.chain he hd) (binding_mem_successors hm hn)

section Changes

theorem successors_pair_congr {p : Address} (h : t.pair p = s.pair p) :
    t.successors (.pair p) = s.successors (.pair p) := by
  rw [successors, successors, first, second, h, first, second]

theorem successors_closure_congr {c : Address} (h : t.closure c = s.closure c) :
    t.successors (.closure c) = s.successors (.closure c) := by
  rw [successors, successors, h]

theorem successors_scope_congr {e : Address} (h : t.scope e = s.scope e) :
    t.successors (.scope e) = s.successors (.scope e) := by
  rw [successors, successors, h]

theorem mem_successors_pair {p : Address} :
    n ∈ s.successors (.pair p) ↔ (s.first p).node? = some n ∨ (s.second p).node? = some n := by
  simp [successors]

theorem pair_cons_of_ne {p : Address} (v w : Value) (h : p ≠ s.pairs.size) :
    (s.cons v w).2.pair p = s.pair p := by
  simp [pair, cons, Array.getElem?_push, h]

theorem mem_successors_cons (h : m ∈ (s.cons v w).2.successors n) :
    n ≠ .pair s.pairs.size ∧ m ∈ s.successors n ∨ v.node? = some m ∨ w.node? = some m := by
  cases n with
  | pair p =>
    by_cases hp : p = s.pairs.size
    · subst hp
      rw [mem_successors_pair, first, second, pair_cons_size] at h
      exact .inr h
    · rw [successors_pair_congr (pair_cons_of_ne v w hp)] at h
      exact .inl ⟨by simpa using hp, h⟩
  | closure c => exact .inl ⟨by simp, h⟩
  | scope e => exact .inl ⟨by simp, h⟩

theorem contains_cons : (s.cons v w).2.Contains n ↔ n = .pair s.pairs.size ∨ s.Contains n := by
  cases n with
  | pair p =>
    simp only [Contains, cons, Array.size_push, Node.pair.injEq]
    exact Nat.lt_succ_iff_lt_or_eq.trans or_comm
  | closure c | scope e => simp [Contains, cons]

theorem mem_successors_setFirst {p : Address} (h : m ∈ (s.setFirst p v).successors n) :
    m ∈ s.successors n ∨ v.node? = some m := by
  cases n with
  | pair q =>
    rcases s.pair_setFirst p q v with he | he
    · rw [mem_successors_pair, first, second, he] at h
      exact h.symm.imp (fun hs ↦ second_mem_successors hs) id
    · rw [successors_pair_congr he] at h
      exact .inl h
  | closure c | scope e => exact .inl h

theorem mem_successors_setSecond {p : Address} (h : m ∈ (s.setSecond p v).successors n) :
    m ∈ s.successors n ∨ v.node? = some m := by
  cases n with
  | pair q =>
    rcases s.pair_setSecond p q v with he | he
    · rw [mem_successors_pair, first, second, he] at h
      exact h.imp (fun hf ↦ first_mem_successors hf) id
    · rw [successors_pair_congr he] at h
      exact .inl h
  | closure c | scope e => exact .inl h

theorem closure_newClosure_of_ne {c : Address} (closure : Closure) (h : c ≠ s.closures.size) :
    (s.newClosure closure).2.closure c = s.closure c := by
  simp [Store.closure, newClosure, Array.getElem?_push, h]

theorem closure_newClosure_size (s : Store) (closure : Closure) :
    (s.newClosure closure).2.closure s.closures.size = closure := by
  simp [Store.closure, newClosure]

theorem mem_successors_newClosure {c : Closure} (h : m ∈ (s.newClosure c).2.successors n) :
    n ≠ .closure s.closures.size ∧ m ∈ s.successors n ∨
      m = .scope c.scope ∨ ∃ v ∈ c.body, v.node? = some m := by
  cases n with
  | closure k =>
    by_cases hk : k = s.closures.size
    · subst hk
      rw [successors, closure_newClosure_size] at h
      exact .inr ((List.mem_cons.1 h).imp_right List.mem_filterMap.1)
    · rw [successors_closure_congr (closure_newClosure_of_ne c hk)] at h
      exact .inl ⟨by simpa using hk, h⟩
  | pair p => exact .inl ⟨by simp, h⟩
  | scope e => exact .inl ⟨by simp, h⟩

theorem contains_newClosure {c : Closure} :
    (s.newClosure c).2.Contains n ↔ n = .closure s.closures.size ∨ s.Contains n := by
  cases n with
  | closure k =>
    simp only [Contains, newClosure, Array.size_push, Node.closure.injEq]
    exact Nat.lt_succ_iff_lt_or_eq.trans or_comm
  | pair p | scope e => simp [Contains, newClosure]

theorem scope_newScope_of_ne {e : Address} (scope : Scope) (h : e ≠ s.scopes.size) :
    (s.newScope scope).2.scope e = s.scope e := by
  simp [Store.scope, newScope, Array.getElem?_push, h]

theorem mem_successors_newChild {parent : Address} (h : m ∈ (s.newChild parent).2.successors n) :
    n ≠ .scope s.scopes.size ∧ m ∈ s.successors n ∨ ∃ d ∈ s.chain parent, m = .scope d := by
  cases n with
  | scope e =>
    by_cases he : e = s.scopes.size
    · subst he
      rw [successors, newChild, scope_newScope_size, List.filterMap_nil, List.append_nil] at h
      obtain ⟨d, hd, rfl⟩ := List.mem_map.1 h
      exact .inr ⟨d, hd, rfl⟩
    · rw [newChild, successors_scope_congr (scope_newScope_of_ne _ he)] at h
      exact .inl ⟨by simpa using he, h⟩
  | pair p => exact .inl ⟨by simp, h⟩
  | closure c => exact .inl ⟨by simp, h⟩

theorem contains_newScope {scope : Scope} :
    (s.newScope scope).2.Contains n ↔ n = .scope s.scopes.size ∨ s.Contains n := by
  cases n with
  | scope e =>
    simp only [Contains, newScope, Array.size_push, Node.scope.injEq]
    exact Nat.lt_succ_iff_lt_or_eq.trans or_comm
  | pair p | closure c => simp [Contains, newScope]

theorem mem_successors_bindHere {e : Address} {name : String}
    (h : m ∈ (s.bindHere e name v).successors n) : m ∈ s.successors n ∨ v.node? = some m := by
  cases n with
  | scope d =>
    by_cases hd : d = e ∧ e < s.scopes.size
    · obtain ⟨rfl, hlt⟩ := hd
      rw [successors, scope_bindHere_self name v hlt] at h
      rcases List.mem_append.1 h with ho | hb
      · exact .inl (List.mem_append_left _ ho)
      · obtain ⟨⟨other, w⟩, hw, hm⟩ := List.mem_filterMap.1 hb
        rcases Bindings.mem_insert hw with ⟨-, rfl⟩ | hold
        · exact .inr hm
        · exact .inl (binding_mem_successors hold hm)
    · have he : (s.bindHere e name v).scope d = s.scope d := by
        by_cases hde : d = e
        · subst hde
          rw [bindHere_of_size_le name v (by simpa using hd)]
        · exact scope_bindHere_of_ne name v hde
      rw [successors_scope_congr he] at h
      exact .inl h
  | pair p | closure c => exact .inl h

end Changes

end Store

end MiniScheme
