import MiniScheme.Store.Basic

namespace MiniScheme

namespace Bindings

/-- The bindings with one more; an older binding of the same name is replaced. -/
def insert (name : String) (v : Value) : Bindings → Bindings
  | [] => [(name, v)]
  | (n, w) :: rest => if n = name then (n, v) :: rest else (n, w) :: insert name v rest

def names (bindings : Bindings) : List String := bindings.map Prod.fst

theorem lookup_insert_self (bindings : Bindings) (name : String) (v : Value) :
    (insert name v bindings).lookup name = some v := by
  induction bindings with
  | nil => simp [insert]
  | cons b rest ih =>
    obtain ⟨n, w⟩ := b
    by_cases h : n = name
    · simp [insert, h]
    · simp [insert, h, List.lookup_cons, beq_false_of_ne (Ne.symm h), ih]

theorem lookup_insert_of_ne (bindings : Bindings) {name other : String} (v : Value)
    (h : other ≠ name) : (insert name v bindings).lookup other = bindings.lookup other := by
  induction bindings with
  | nil => simp [insert, List.lookup_cons, beq_false_of_ne h]
  | cons b rest ih =>
    obtain ⟨n, w⟩ := b
    by_cases hn : n = name
    · subst hn
      simp [insert, List.lookup_cons, beq_false_of_ne h]
    · simp [insert, hn, List.lookup_cons, ih]

end Bindings

namespace Store

/-- The scopes in which a name is looked for, in order: a scope and those around it. -/
def chain (s : Store) (e : Address) : List Address := e :: (s.scope e).outer

def newScope (s : Store) (scope : Scope) : Address × Store :=
  (s.scopes.size, { s with scopes := s.scopes.push scope })

def newRoot (s : Store) : Address × Store := s.newScope ⟨[], []⟩

def newGlobal (s : Store) : Address × Store :=
  s.newScope ⟨Builtin.all.map fun b ↦ (b.name, .builtin b), []⟩

/-- A new scope without bindings, right inside the given one. -/
def newChild (s : Store) (parent : Address) : Address × Store := s.newScope ⟨[], s.chain parent⟩

def bindHere (s : Store) (e : Address) (name : String) (v : Value) : Store :=
  { s with scopes := s.scopes.modify e fun scope ↦
      { scope with bindings := Bindings.insert name v scope.bindings } }

def bindAll (s : Store) (e : Address) : List (String × Value) → Store
  | [] => s
  | (name, v) :: rest => (s.bindHere e name v).bindAll e rest

/-- A new scope right inside the given one, in which the names are bound in order. -/
def openScope (s : Store) (parent : Address) (names : List (String × Value)) : Address × Store :=
  let (inner, s) := s.newChild parent
  (inner, s.bindAll inner names)

def lookupHere (s : Store) (e : Address) (name : String) : Option Value :=
  (s.scope e).bindings.lookup name

def holder (s : Store) (e : Address) (name : String) : Option Address :=
  (s.chain e).find? fun a ↦ (s.lookupHere a name).isSome

def lookup (s : Store) (e : Address) (name : String) : Option Value :=
  (s.chain e).findSome? fun a ↦ s.lookupHere a name

/-- Changes the nearest binding of a name, if there is one. -/
def assign (s : Store) (e : Address) (name : String) (v : Value) : Option Store :=
  (s.holder e name).map fun a ↦ s.bindHere a name v

/-- Binds a name in the very scope given, and returns the value replaced. -/
def define (s : Store) (e : Address) (name : String) (v : Value) : Option Value × Store :=
  (s.lookupHere e name, s.bindHere e name v)

def sortedNames (s : Store) (e : Address) : List String :=
  (Bindings.names (s.scope e).bindings).mergeSort fun a b ↦ decide (a ≤ b)

/-- A line for each scope of a chain: its distance from the first one, and its names. -/
def scopesText (s : Store) (e : Address) : String :=
  String.join <| (s.chain e).zipIdx.map fun (a, depth) ↦
    toString depth ++ ": " ++ " ".intercalate (s.sortedNames a) ++ "\n"

theorem scope_newScope_of_lt {s : Store} {e : Address} (scope : Scope) (h : e < s.scopes.size) :
    (s.newScope scope).2.scope e = s.scope e := by
  simp [Store.scope, newScope, Array.getElem?_push, Nat.ne_of_lt h]

theorem scope_newScope_size (s : Store) (scope : Scope) :
    (s.newScope scope).2.scope s.scopes.size = scope := by
  simp [Store.scope, newScope]

theorem scope_bindHere_of_ne {s : Store} {d e : Address} (name : String) (v : Value) (h : d ≠ e) :
    (s.bindHere e name v).scope d = s.scope d := by
  simp [Store.scope, bindHere, Array.getElem?_modify, h.symm]

theorem scope_bindHere_self {s : Store} {e : Address} (name : String) (v : Value)
    (h : e < s.scopes.size) :
    (s.bindHere e name v).scope e =
      ⟨Bindings.insert name v (s.scope e).bindings, (s.scope e).outer⟩ := by
  simp [Store.scope, bindHere, Array.getElem_modify, h]

theorem bindHere_of_size_le {s : Store} {e : Address} (name : String) (v : Value)
    (h : s.scopes.size ≤ e) : s.bindHere e name v = s := by
  rw [bindHere]
  congr 1
  apply Array.ext
  · rw [Array.size_modify]
  · intro i _ hi
    rw [Array.getElem_modify, if_neg (Nat.ne_of_gt (Nat.lt_of_lt_of_le hi h))]

theorem size_scopes_bindHere (s : Store) (e : Address) (name : String) (v : Value) :
    (s.bindHere e name v).scopes.size = s.scopes.size := by
  simp [bindHere]

/-- Binding a name moves no scope. -/
theorem chain_bindHere (s : Store) (d e : Address) (name : String) (v : Value) :
    (s.bindHere e name v).chain d = s.chain d := by
  by_cases hd : d = e
  · subst hd
    rcases Nat.lt_or_ge d s.scopes.size with hlt | hge
    · rw [chain, chain, scope_bindHere_self name v hlt]
    · rw [bindHere_of_size_le name v hge]
  · rw [chain, chain, scope_bindHere_of_ne name v hd]

theorem lookupHere_bindHere_self {s : Store} {e : Address} (name : String) (v : Value)
    (h : e < s.scopes.size) : (s.bindHere e name v).lookupHere e name = some v := by
  rw [lookupHere, scope_bindHere_self name v h, Bindings.lookup_insert_self]

theorem lookupHere_bindHere_of_ne {s : Store} {d e : Address} {name other : String} (v : Value)
    (h : d ≠ e ∨ other ≠ name) :
    (s.bindHere e name v).lookupHere d other = s.lookupHere d other := by
  by_cases hd : d = e
  · subst hd
    have hn : other ≠ name := h.resolve_left (absurd rfl)
    rcases Nat.lt_or_ge d s.scopes.size with hlt | hge
    · rw [lookupHere, lookupHere, scope_bindHere_self name v hlt,
        Bindings.lookup_insert_of_ne _ v hn]
    · rw [bindHere_of_size_le name v hge]
  · rw [lookupHere, lookupHere, scope_bindHere_of_ne name v hd]

theorem lookup_eq_holder (s : Store) (e : Address) (name : String) :
    s.lookup e name = (s.holder e name).bind fun a ↦ s.lookupHere a name := by
  rw [lookup, holder]
  induction s.chain e with
  | nil => rfl
  | cons a rest ih =>
    cases h : s.lookupHere a name with
    | none => simp [h, ih]
    | some v => simp [h]

end Store

end MiniScheme
