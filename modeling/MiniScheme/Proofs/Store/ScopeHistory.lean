import MiniScheme.Proofs.Store.Mirror
import MiniScheme.Proofs.Store.Opening
import Mathlib

namespace MiniScheme

/-- What has been done with scopes, up to a moment when there are `n` of them. Each is known by the
number of scopes that were there before it. -/
inductive ScopeHistory : Nat → Type
  | start : ScopeHistory 0
  | root {n : Nat} (past : ScopeHistory n) : ScopeHistory (n + 1)
  | child {n : Nat} (past : ScopeHistory n) (parent : Fin n) : ScopeHistory (n + 1)
  | define {n : Nat} (past : ScopeHistory n) (e : Fin n) (name : String) (v : Value) :
      ScopeHistory n
  | assign {n : Nat} (past : ScopeHistory n) (e : Fin n) (name : String) (v : Value) :
      ScopeHistory n
  | lookup {n : Nat} (past : ScopeHistory n) (e : Fin n) (name : String) : ScopeHistory n
  | display {n : Nat} (past : ScopeHistory n) (e : Fin n) : ScopeHistory n

namespace ScopeHistory

variable {n : Nat}

/-- What the store has become. -/
def store : {n : Nat} → ScopeHistory n → Store
  | _, start => .empty
  | _, root past => past.store.newRoot.2
  | _, child past parent => (past.store.newChild parent).2
  | _, define past e name v => (past.store.define e name v).2
  | _, assign past e name v => (past.store.assign e name v).getD past.store
  | _, lookup past _ _ => past.store
  | _, display past _ => past.store

/-- A scope, its parent and so on up to a root. -/
def chain : {n : Nat} → ScopeHistory n → Address → List Address
  | _, start, _ => []
  | _, @root n past, e => if e = n then [n] else past.chain e
  | _, @child n past parent, e => if e = n then n :: past.chain parent else past.chain e
  | _, define past _ _ _, e => past.chain e
  | _, assign past _ _ _, e => past.chain e
  | _, lookup past _ _, e => past.chain e
  | _, display past _, e => past.chain e

/-- The name has been defined in this very scope at some time. -/
def defines : {n : Nat} → ScopeHistory n → Address → String → Bool
  | _, start, _, _ => false
  | _, root past, a, other => past.defines a other
  | _, child past _, a, other => past.defines a other
  | _, define past e name _, a, other => (a = e ∧ other = name) || past.defines a other
  | _, assign past _ _ _, a, other => past.defines a other
  | _, lookup past _ _, a, other => past.defines a other
  | _, display past _, a, other => past.defines a other

def nearest (h : ScopeHistory n) (e : Address) (name : String) : Option Address :=
  (h.chain e).find? fun a ↦ h.defines a name

/-- What was last stored for a name in this very scope: by a definition there, or by an assignment
anywhere for which this was the nearest scope that defines the name. -/
def lastStored : {n : Nat} → ScopeHistory n → Address → String → Option Value
  | _, start, _, _ => none
  | _, root past, a, other => past.lastStored a other
  | _, child past _, a, other => past.lastStored a other
  | _, define past e name v, a, other =>
    if a = e ∧ other = name then some v else past.lastStored a other
  | _, assign past e name v, a, other =>
    if past.nearest e name = some a ∧ other = name then some v else past.lastStored a other
  | _, lookup past _ _, a, other => past.lastStored a other
  | _, display past _, a, other => past.lastStored a other

theorem store_define (h : ScopeHistory n) (e : Fin n) (name : String) (v : Value) :
    (h.define e name v).store = (h.store.define e name v).2 := rfl

theorem store_assign (h : ScopeHistory n) (e : Fin n) (name : String) (v : Value) :
    (h.assign e name v).store = (h.store.assign e name v).getD h.store := rfl

theorem lt_of_defines {h : ScopeHistory n} {a : Address} {name : String}
    (hd : h.defines a name = true) : a < n := by
  induction h with
  | start => cases hd
  | root past ih => exact Nat.lt_succ_of_lt (ih hd)
  | child past parent ih => exact Nat.lt_succ_of_lt (ih hd)
  | define past e other v ih =>
    rw [defines, Bool.or_eq_true, decide_eq_true_iff] at hd
    obtain ⟨rfl, -⟩ | hd := hd
    · exact e.isLt
    · exact ih hd
  | assign past _ _ _ ih | lookup past _ _ ih | display past _ ih => exact ih hd

theorem isSome_lastStored (h : ScopeHistory n) (a : Address) (name : String) :
    (h.lastStored a name).isSome = h.defines a name := by
  induction h with
  | start => rfl
  | root past ih | child past _ ih | lookup past _ _ ih | display past _ ih => exact ih
  | define past e other v ih =>
    rw [lastStored, defines]
    split
    · next hc => simp [hc]
    · next hc => simp [hc, ih]
  | assign past e other v ih =>
    rw [lastStored, defines]
    split
    · next hc =>
      obtain ⟨hn, rfl⟩ := hc
      exact (List.find?_some hn).symm
    · exact ih

section Reflects

/-- A store whose scopes are as the history says. -/
structure Reflects (h : ScopeHistory n) (s : Store) : Prop where
  size_eq : s.scopes.size = n
  chain_eq {e : Address} (he : e < n) : s.chain e = h.chain e
  mem_chain_lt {e a : Address} (he : e < n) (ha : a ∈ h.chain e) : a < n
  lookupHere_eq {a : Address} (ha : a < n) (name : String) :
    s.lookupHere a name = h.lastStored a name
  nodup_names (a : Address) : (s.names a).Nodup

variable {h : ScopeHistory n} {s : Store} {e a : Address} {name : String}

theorem Reflects.mem_names (hs : h.Reflects s) (ha : a < n) :
    name ∈ s.names a ↔ h.defines a name = true := by
  rw [Store.names, ← Bindings.isSome_lookup_iff, ← isSome_lastStored, ← hs.lookupHere_eq ha]
  rfl

theorem Reflects.holder_eq (hs : h.Reflects s) (he : e < n) (name : String) :
    s.holder e name = h.nearest e name := by
  rw [Store.holder, nearest, hs.chain_eq he]
  refine List.find?_congr fun a ha ↦ ?_
  rw [hs.lookupHere_eq (hs.mem_chain_lt he ha), isSome_lastStored]

theorem Reflects.newScope (hs : h.Reflects s) {h' : ScopeHistory (n + 1)} {outer : List Address}
    (ho : ∀ a ∈ outer, a < n)
    (hchain : ∀ e, h'.chain e = if e = n then n :: outer else h.chain e)
    (hlast : ∀ a name, h'.lastStored a name = h.lastStored a name) :
    h'.Reflects (s.newScope ⟨[], outer⟩).2 := by
  obtain rfl := hs.size_eq
  have hnew := s.scope_newScope_size ⟨[], outer⟩
  have hold {a : Address} (ha : a < s.scopes.size + 1) (hne : a ≠ s.scopes.size) :
      a < s.scopes.size := Nat.lt_of_le_of_ne (Nat.le_of_lt_succ ha) hne
  constructor
  case size_eq => exact Array.size_push _
  case chain_eq =>
    intro e he
    rw [hchain]
    split
    · next heq => rw [heq, Store.chain, hnew]
    · next hne => rw [Store.chain_newScope_of_lt _ (hold he hne), hs.chain_eq (hold he hne)]
  case mem_chain_lt =>
    intro e a he ha
    rw [hchain] at ha
    split at ha
    · obtain rfl | ha := List.mem_cons.1 ha
      · exact Nat.lt_succ_self _
      · exact Nat.lt_succ_of_lt (ho a ha)
    · next hne => exact Nat.lt_succ_of_lt (hs.mem_chain_lt (hold he hne) ha)
  case lookupHere_eq =>
    intro a ha name
    rw [hlast]
    by_cases hne : a = s.scopes.size
    · subst hne
      have hnone : h.lastStored s.scopes.size name = none := by
        rw [← Option.not_isSome_iff_eq_none, isSome_lastStored]
        exact fun hd ↦ Nat.lt_irrefl _ (lt_of_defines hd)
      rw [hnone, Store.lookupHere, hnew]
      rfl
    · rw [← hs.lookupHere_eq (hold ha hne), Store.lookupHere, Store.lookupHere,
        Store.scope_newScope_of_lt _ (hold ha hne)]
  case nodup_names =>
    intro a
    rcases Nat.lt_trichotomy a s.scopes.size with hlt | rfl | hgt
    · rw [Store.names_newScope_of_lt _ hlt]
      exact hs.nodup_names a
    · rw [Store.names, hnew]
      exact List.nodup_nil
    · have hge : (s.newScope ⟨[], outer⟩).2.scopes.size ≤ a := by
        rw [Store.newScope, Array.size_push]
        exact hgt
      rw [Store.names_of_size_le hge]
      exact List.nodup_nil

theorem Reflects.bindHere (hs : h.Reflects s) {h' : ScopeHistory n} {v : Value} (ha : a < n)
    (hchain : ∀ e, h'.chain e = h.chain e)
    (hlast : ∀ d other, h'.lastStored d other =
      if d = a ∧ other = name then some v else h.lastStored d other) :
    h'.Reflects (s.bindHere a name v) where
  size_eq := (s.size_scopes_bindHere a name v).trans hs.size_eq
  chain_eq he := by rw [Store.chain_bindHere, hchain, hs.chain_eq he]
  mem_chain_lt he hd := hs.mem_chain_lt he (hchain _ ▸ hd)
  lookupHere_eq {d} hd other := by
    rw [hlast]
    split
    · next heq =>
      rw [heq.1, heq.2, Store.lookupHere_bindHere_self name v (hs.size_eq.symm ▸ ha)]
    · next hne => rw [Store.lookupHere_bindHere_of_ne v (not_and_or.1 hne), hs.lookupHere_eq hd]
  nodup_names d := Store.nodup_names_bindHere (hs.nodup_names d) a name v

theorem Reflects.same (hs : h.Reflects s) {h' : ScopeHistory n}
    (hchain : ∀ e, h'.chain e = h.chain e)
    (hlast : ∀ d other, h'.lastStored d other = h.lastStored d other) : h'.Reflects s where
  size_eq := hs.size_eq
  chain_eq he := (hs.chain_eq he).trans (hchain _).symm
  mem_chain_lt he ha := hs.mem_chain_lt he (hchain _ ▸ ha)
  lookupHere_eq ha name := (hs.lookupHere_eq ha name).trans (hlast _ name).symm
  nodup_names := hs.nodup_names

theorem Reflects.assign (hs : h.Reflects s) (e : Fin n) (name : String) (v : Value) :
    (h.assign e name v).Reflects ((s.assign e name v).getD s) := by
  rw [Store.assign, hs.holder_eq e.isLt]
  cases hn : h.nearest e name with
  | none =>
    refine hs.same (fun _ ↦ rfl) fun d other ↦ ?_
    rw [lastStored, hn, if_neg]
    rintro ⟨hc, -⟩
    cases hc
  | some a =>
    have ha : a < n := hs.mem_chain_lt e.isLt (List.mem_of_find?_eq_some hn)
    refine hs.bindHere ha (fun _ ↦ rfl) fun d other ↦ ?_
    simp only [lastStored, hn, Option.some.injEq, eq_comm]

end Reflects

/-- After every sequence of operations the scopes are what has been done with them. -/
theorem reflects_store (h : ScopeHistory n) : h.Reflects h.store := by
  induction h with
  | start =>
    exact ⟨rfl, fun he ↦ absurd he (Nat.not_lt_zero _), fun he ↦ absurd he (Nat.not_lt_zero _),
      fun ha ↦ absurd ha (Nat.not_lt_zero _), fun _ ↦ List.nodup_nil⟩
  | root past ih =>
    exact ih.newScope (List.forall_mem_nil _) (fun _ ↦ rfl) fun _ _ ↦ rfl
  | child past parent ih =>
    have hchild : (child past parent).Reflects
        (past.store.newScope ⟨[], past.chain parent⟩).2 :=
      ih.newScope (fun a ha ↦ ih.mem_chain_lt parent.isLt ha) (fun _ ↦ rfl) fun _ _ ↦ rfl
    rwa [← ih.chain_eq parent.isLt] at hchild
  | define past e name v ih => exact ih.bindHere e.isLt (fun _ ↦ rfl) fun _ _ ↦ rfl
  | assign past e name v ih => exact ih.assign e name v
  | lookup past _ _ ih | display past _ ih => exact ih.same (fun _ ↦ rfl) fun _ _ ↦ rfl

section Lookup

variable {h : ScopeHistory n} {d e : Fin n} {name other : String} {v : Value}

theorem exists_lastStored {e a : Address} (ha : h.nearest e name = some a) :
    ∃ v, h.lastStored a name = some v := by
  rw [← Option.isSome_iff_exists, isSome_lastStored]
  exact List.find?_some (p := fun a ↦ h.defines a name) ha

/-- A lookup gives what was last stored in the nearest scope that defines the name. -/
theorem lookup_store (h : ScopeHistory n) (e : Fin n) (name : String) :
    h.store.lookup e name = (h.nearest e name).bind fun a ↦ h.lastStored a name := by
  have hs := h.reflects_store
  rw [Store.lookup_eq_holder, hs.holder_eq e.isLt]
  cases hn : h.nearest e name with
  | none => rfl
  | some a => exact hs.lookupHere_eq (hs.mem_chain_lt e.isLt (List.mem_of_find?_eq_some hn)) name

theorem lookup_store_of_nearest {a : Address} (ha : h.nearest e name = some a) :
    ∃ v, h.lastStored a name = some v ∧ h.store.lookup e name = some v := by
  obtain ⟨v, hv⟩ := exists_lastStored ha
  exact ⟨v, hv, by rw [lookup_store, ha, Option.bind_some, hv]⟩

theorem isSome_assign (h : ScopeHistory n) (e : Fin n) (name : String) (v : Value) :
    (h.store.assign e name v).isSome = (h.store.lookup e name).isSome := by
  rw [Store.assign, h.reflects_store.holder_eq e.isLt, lookup_store]
  cases hn : h.nearest e name with
  | none => rfl
  | some a =>
    obtain ⟨w, hw⟩ := exists_lastStored hn
    rw [Option.bind_some, hw]
    rfl

theorem nearest_ne_none {t : Store} (ht : h.store.assign e name v = some t) :
    h.nearest e name ≠ none := by
  intro hn
  rw [Store.assign, h.reflects_store.holder_eq e.isLt, hn] at ht
  cases ht

theorem lookup_assign_of_eq (ha : h.nearest e name ≠ none)
    (hd : h.nearest d name = h.nearest e name) :
    (h.assign e name v).store.lookup d name = some v := by
  obtain ⟨a, ha⟩ := Option.ne_none_iff_exists'.1 ha
  rw [ha] at hd
  have hd' : (h.assign e name v).nearest d name = some a := hd
  rw [lookup_store, hd', Option.bind_some, lastStored, ha, if_pos ⟨rfl, rfl⟩]

theorem lookup_assign_of_ne (hd : ¬ (other = name ∧ h.nearest d other = h.nearest e name)) :
    (h.assign e name v).store.lookup d other = h.store.lookup d other := by
  rw [lookup_store, lookup_store]
  change (h.nearest d other).bind _ = _
  cases hn : h.nearest d other with
  | none => rfl
  | some a =>
    rw [Option.bind_some, Option.bind_some, lastStored, if_neg]
    rintro ⟨ha, rfl⟩
    exact hd ⟨rfl, hn.trans ha.symm⟩

end Lookup

section Define

/-- Going out from a scope, one comes to `e` before any other scope that defines the name. -/
def ReachesFirst (h : ScopeHistory n) (d e : Address) (name : String) : Prop :=
  ∃ before after, h.chain d = before ++ e :: after ∧ ∀ a ∈ before, h.defines a name = false

variable {h : ScopeHistory n} {d e : Fin n} {name other : String} {v : Value}

theorem find?_or_eq_self_iff {p : Address → Bool} {as : List Address} {e : Address} :
    as.find? (fun a ↦ a = e || p a) = some e ↔
      ∃ before after, as = before ++ e :: after ∧ ∀ a ∈ before, p a = false := by
  constructor
  · intro hf
    obtain ⟨-, before, after, rfl, hb⟩ := List.find?_eq_some_iff_append.1 hf
    refine ⟨before, after, rfl, fun a ha ↦ ?_⟩
    have hnot : a ≠ e ∧ p a = false := by simpa using hb a ha
    exact hnot.2
  · rintro ⟨before, after, rfl, hb⟩
    induction before with
    | nil => simp
    | cons a before ih =>
      obtain ⟨ha, hb⟩ := List.forall_mem_cons.1 hb
      by_cases hae : a = e
      · simp [hae]
      · rw [List.cons_append, List.find?_cons, ha, decide_eq_false hae]
        exact ih hb

theorem find?_or_of_ne {p : Address → Bool} {as : List Address} {e : Address}
    (h : as.find? (fun a ↦ a = e || p a) ≠ some e) :
    as.find? (fun a ↦ a = e || p a) = as.find? p := by
  induction as with
  | nil => rfl
  | cons a as ih =>
    have hae : a ≠ e := by
      rintro rfl
      simp at h
    rw [List.find?_cons, decide_eq_false hae, Bool.false_or] at h ⊢
    rw [List.find?_cons]
    cases hp : p a with
    | true => rfl
    | false =>
      rw [hp] at h
      exact ih h

theorem nearest_define (h : ScopeHistory n) (d e : Fin n) (name : String) (v : Value) :
    (h.define e name v).nearest d name =
      (h.chain d).find? fun a : Address ↦ a = e || h.defines a name := by
  rw [nearest, chain]
  simp only [defines, and_true]

theorem lookup_define_of_reachesFirst (hd : h.ReachesFirst d e name) :
    (h.define e name v).store.lookup d name = some v := by
  rw [lookup_store, nearest_define, find?_or_eq_self_iff.2 hd, Option.bind_some, lastStored,
    if_pos ⟨rfl, rfl⟩]

theorem lookup_define_of_not_reachesFirst (hd : ¬ (other = name ∧ h.ReachesFirst d e name)) :
    (h.define e name v).store.lookup d other = h.store.lookup d other := by
  have hnearest : (h.define e name v).nearest d other = h.nearest d other := by
    by_cases ho : other = name
    · subst ho
      rw [nearest_define]
      exact find?_or_of_ne (mt find?_or_eq_self_iff.1 fun hr ↦ hd ⟨rfl, hr⟩)
    · simp only [nearest, chain, defines, ho, and_false, decide_false, Bool.false_or]
  rw [lookup_store, lookup_store, hnearest]
  cases hn : h.nearest d other with
  | none => rfl
  | some a =>
    rw [Option.bind_some, Option.bind_some, lastStored, if_neg]
    rintro ⟨rfl, rfl⟩
    rw [← hnearest, nearest_define] at hn
    exact hd ⟨rfl, find?_or_eq_self_iff.1 hn⟩

theorem define_fst (h : ScopeHistory n) (e : Fin n) (name : String) (v : Value) :
    (h.store.define e name v).1 = h.lastStored e name :=
  h.reflects_store.lookupHere_eq e.isLt name

end Define

section Display

theorem pairwise_sortedNames {s : Store} {a : Address} (hs : (s.names a).Nodup) :
    (s.sortedNames a).Pairwise (· < ·) := by
  have hle : (s.sortedNames a).Pairwise fun x y ↦ decide (x ≤ y) = true := by
    refine List.pairwise_mergeSort (fun x y z hxy hyz ↦ ?_) (fun x y ↦ ?_) _
    · exact decide_eq_true (String.le_trans (of_decide_eq_true hxy) (of_decide_eq_true hyz))
    · simpa using String.le_total x y
  have hne : (s.sortedNames a).Nodup := (List.mergeSort_perm _ _).nodup_iff.2 hs
  refine (hle.and hne).imp fun {x y} hxy ↦ ?_
  rw [← String.not_le]
  exact fun hyx ↦ hxy.2 (String.le_antisymm (of_decide_eq_true hxy.1) hyx)

theorem mem_sortedNames (h : ScopeHistory n) (a : Address) (name : String) :
    name ∈ h.store.sortedNames a ↔ h.defines a name = true := by
  rw [Store.sortedNames, List.mem_mergeSort]
  rcases Nat.lt_or_ge a n with hlt | hge
  · exact h.reflects_store.mem_names hlt
  · have hnone : h.store.names a = [] :=
      Store.names_of_size_le (h.reflects_store.size_eq.trans_le hge)
    change name ∈ h.store.names a ↔ _
    rw [hnone]
    exact iff_of_false List.not_mem_nil fun hd ↦ Nat.not_le.2 (lt_of_defines hd) hge

/-- A line for each list of names, numbered from zero. -/
def linesText (lines : List (List String)) : String :=
  String.join <| lines.zipIdx.map fun (names, depth) ↦
    toString depth ++ ": " ++ " ".intercalate names ++ "\n"

theorem scopesText_eq (h : ScopeHistory n) (e : Fin n) :
    h.store.scopesText e = linesText ((h.chain e).map h.store.sortedNames) := by
  rw [Store.scopesText, linesText, h.reflects_store.chain_eq e.isLt, List.zipIdx_map, List.map_map]
  rfl

/-- The names in a line do not depend on when they were defined. -/
theorem sortedNames_congr {m : Nat} {h : ScopeHistory n} {h' : ScopeHistory m} {a a' : Address}
    (hd : ∀ name, h.defines a name = h'.defines a' name) :
    h.store.sortedNames a = h'.store.sortedNames a' := by
  have hleft := pairwise_sortedNames (h.reflects_store.nodup_names a)
  have hright := pairwise_sortedNames (h'.reflects_store.nodup_names a')
  refine hleft.eq_of_mem_iff hright fun name ↦ ?_
  rw [mem_sortedNames, mem_sortedNames, hd]

theorem scopesText_congr {m : Nat} {h : ScopeHistory n} {h' : ScopeHistory m} {e : Fin n}
    {e' : Fin m} (hd : List.Forall₂ (fun a a' ↦ ∀ name, h.defines a name = h'.defines a' name)
      (h.chain e) (h'.chain e')) : h.store.scopesText e = h'.store.scopesText e' := by
  rw [scopesText_eq, scopesText_eq, map_eq_of_forall₂ hd fun _ _ ↦ sortedNames_congr]

end Display

section Global

/-- A root in which the built-ins are bound, one after another. -/
def global (past : ScopeHistory n) : ScopeHistory (n + 1) :=
  Builtin.all.foldl (fun h b ↦ h.define (Fin.last n) b.name (.builtin b)) past.root

theorem store_foldl_define (bs : List Builtin) (h : ScopeHistory n) (e : Fin n) :
    (bs.foldl (fun h b ↦ h.define e b.name (.builtin b)) h).store =
      h.store.bindAll e (bs.map fun b ↦ (b.name, .builtin b)) := by
  induction bs generalizing h with
  | nil => rfl
  | cons b bs ih => exact ih _

theorem store_global (past : ScopeHistory n) : past.global.store = past.store.newGlobal.2 := by
  have hnew : (Fin.last n : Address) = past.store.newRoot.1 :=
    past.reflects_store.size_eq.symm
  rw [global, store_foldl_define, hnew, Store.newGlobal_eq]
  rfl

end Global

/-- The chains of scopes are a tree of finite maps: what a lookup, an assignment, a definition and
a display of a scope do is told by what has been done before. -/
theorem scopes_reflect_history (h : ScopeHistory n) (e : Fin n) :
    (∀ name, (∀ a, h.nearest e name = some a →
        ∃ v, h.lastStored a name = some v ∧ h.store.lookup e name = some v) ∧
      (h.nearest e name = none → h.store.lookup e name = none)) ∧
    (∀ name v, (h.store.assign e name v).isSome = (h.store.lookup e name).isSome ∧
      (h.store.assign e name v = none → (h.assign e name v).store = h.store) ∧
      ∀ t, h.store.assign e name v = some t → ∀ (d : Fin n) other,
        (other = name ∧ h.nearest d other = h.nearest e name → t.lookup d other = some v) ∧
        (¬ (other = name ∧ h.nearest d other = h.nearest e name) →
          t.lookup d other = h.store.lookup d other)) ∧
    (∀ name v, (h.store.define e name v).1 = h.lastStored e name ∧ ∀ (d : Fin n) other,
      (other = name ∧ h.ReachesFirst d e name →
        (h.store.define e name v).2.lookup d other = some v) ∧
      (¬ (other = name ∧ h.ReachesFirst d e name) →
        (h.store.define e name v).2.lookup d other = h.store.lookup d other)) ∧
    (∃ lines, h.store.scopesText e = linesText lines ∧
      List.Forall₂ (fun a names ↦ names.Pairwise (· < ·) ∧
        ∀ name, name ∈ names ↔ h.defines a name = true) (h.chain e) lines) ∧
    ∀ (m : Nat) (h' : ScopeHistory m) (e' : Fin m),
      List.Forall₂ (fun a a' ↦ ∀ name, h.defines a name = h'.defines a' name)
        (h.chain e) (h'.chain e') →
      h.store.scopesText e = h'.store.scopesText e' := by
  refine ⟨fun name ↦ ⟨fun a ha ↦ lookup_store_of_nearest ha, fun hn ↦ ?_⟩,
    fun name v ↦ ⟨h.isSome_assign e name v, fun hn ↦ ?_, fun t ht d other ↦ ?_⟩,
    fun name v ↦ ⟨h.define_fst e name v, fun d other ↦ ?_⟩,
    ⟨_, h.scopesText_eq e, ?_⟩, fun m h' e' hd ↦ scopesText_congr hd⟩
  · rw [lookup_store, hn, Option.bind_none]
  · rw [store_assign, hn, Option.getD_none]
  · have hstore : t = (h.assign e name v).store := by rw [store_assign, ht, Option.getD_some]
    rw [hstore]
    refine ⟨?_, lookup_assign_of_ne⟩
    rintro ⟨rfl, hd⟩
    exact lookup_assign_of_eq (nearest_ne_none ht) hd
  · rw [← store_define]
    refine ⟨?_, lookup_define_of_not_reachesFirst⟩
    rintro ⟨rfl, hd⟩
    exact lookup_define_of_reachesFirst hd
  · rw [List.forall₂_map_right_iff, List.forall₂_same]
    intro a ha
    exact ⟨pairwise_sortedNames (h.reflects_store.nodup_names a), h.mem_sortedNames a⟩

example :
    let h := ((((start.root.child 0).define 0 "y" (.integer 1)).define 0 "x" (.integer 2)).define 1
      "x" (.integer 3)).assign 1 "y" (.integer 4)
    h.store.lookup 1 "x" = some (.integer 3) ∧ h.store.lookup 0 "y" = some (.integer 4) ∧
      h.store.scopesText 1 = "0: x\n1: x y\n" := by
  refine ⟨?_, ?_, ?_⟩ <;> cbv

end ScopeHistory

end MiniScheme
