import MiniScheme.Proofs.Store.Race
import MiniScheme.Proofs.Store.Reach
import Mathlib.Data.List.Forall2

namespace MiniScheme

/-- Which nodes of one store stand for which nodes of another. -/
abbrev Correspondence := Node → Node → Prop

variable {M N : Correspondence} {s t : Store} {v w : Value} {vs ws : List Value} {n m : Node}

/-- The same atom, or two values whose nodes correspond. -/
inductive Value.Matches (M : Correspondence) : Value → Value → Prop
  | atom (a : Atom) (h : ∀ c, a ≠ .closure c) : Matches M (.atom a) (.atom a)
  | closure {c d : Address} (h : M (.closure c) (.closure d)) :
      Matches M (.closure c) (.closure d)
  | pair {p q : Address} (h : M (.pair p) (.pair q)) : Matches M (.pair p) (.pair q)

structure Pair.Matches (M : Correspondence) (a b : Pair) : Prop where
  first : a.first.Matches M b.first
  second : a.second.Matches M b.second

structure Closure.Matches (M : Correspondence) (a b : Closure) : Prop where
  parameters_eq : a.parameters = b.parameters
  body : List.Forall₂ (Value.Matches M) a.body b.body
  scope : M (.scope a.scope) (.scope b.scope)

/-- The same names in the same order, with values that match. -/
abbrev Bindings.Matches (M : Correspondence) : Bindings → Bindings → Prop :=
  List.Forall₂ fun a b ↦ a.1 = b.1 ∧ a.2.Matches M b.2

structure Scope.Matches (M : Correspondence) (a b : Scope) : Prop where
  bindings : a.bindings.Matches M b.bindings
  outer : List.Forall₂ (fun d e ↦ M (.scope d) (.scope e)) a.outer b.outer

namespace Store

/-- The contents of two nodes match. -/
inductive MatchesAt (M : Correspondence) (s t : Store) : Node → Node → Prop
  | pair {p q : Address} (h : (s.pair p).Matches M (t.pair q)) : MatchesAt M s t (.pair p) (.pair q)
  | closure {c d : Address} (h : (s.closure c).Matches M (t.closure d)) :
      MatchesAt M s t (.closure c) (.closure d)
  | scope {d e : Address} (h : (s.scope d).Matches M (t.scope e)) :
      MatchesAt M s t (.scope d) (.scope e)

/-- Where two stores correspond, they differ in nothing but addresses. -/
structure Mirrors (M : Correspondence) (s t : Store) : Prop where
  contains {n m : Node} (h : M n m) : s.Contains n ∧ t.Contains m
  unique {n m n' m' : Node} (h : M n m) (h' : M n' m') : n = n' ↔ m = m'
  content {n m : Node} (h : M n m) : MatchesAt M s t n m

end Store

section Mono

variable (hM : M ≤ N)
include hM

theorem Value.Matches.mono (h : v.Matches M w) : v.Matches N w := by
  cases h with
  | atom a ha => exact .atom a ha
  | closure h => exact .closure (hM _ _ h)
  | pair h => exact .pair (hM _ _ h)

theorem matches_all_mono (h : List.Forall₂ (Value.Matches M) vs ws) :
    List.Forall₂ (Value.Matches N) vs ws :=
  h.imp fun _ _ ↦ .mono hM

theorem Pair.Matches.mono {a b : Pair} (h : a.Matches M b) : a.Matches N b :=
  ⟨h.first.mono hM, h.second.mono hM⟩

theorem Closure.Matches.mono {a b : Closure} (h : a.Matches M b) : a.Matches N b :=
  ⟨h.parameters_eq, matches_all_mono hM h.body, hM _ _ h.scope⟩

theorem Bindings.Matches.mono {a b : Bindings} (h : a.Matches M b) : a.Matches N b :=
  h.imp fun _ _ hb ↦ ⟨hb.1, hb.2.mono hM⟩

theorem Scope.Matches.mono {a b : Scope} (h : a.Matches M b) : a.Matches N b :=
  ⟨h.bindings.mono hM, h.outer.imp fun _ _ ↦ hM _ _⟩

theorem Store.MatchesAt.mono (h : MatchesAt M s t n m) : MatchesAt N s t n m := by
  cases h with
  | pair h => exact .pair (h.mono hM)
  | closure h => exact .closure (h.mono hM)
  | scope h => exact .scope (h.mono hM)

end Mono

namespace Value.Matches

theorem integer (n : Int64) : (Value.integer n).Matches M (.integer n) := .atom _ (by simp)

theorem symbol (name : String) : (Value.symbol name).Matches M (.symbol name) := .atom _ (by simp)

theorem builtin (b : Builtin) : (Value.builtin b).Matches M (.builtin b) := .atom _ (by simp)

theorem nil : Value.nil.Matches M .nil := .atom _ (by simp)

theorem boolean (b : Bool) : (Value.boolean b).Matches M (.boolean b) := symbol _

variable (h : v.Matches M w)
include h

theorem eq_symbol_iff (name : String) : v = .symbol name ↔ w = .symbol name := by
  cases h <;> simp

theorem isFalse_eq : v.isFalse = w.isFalse := by
  rw [Bool.eq_iff_iff]
  simp only [Value.isFalse, Value.boolean, beq_iff_eq, h.eq_symbol_iff]

theorem isTrue_eq : v.isTrue = w.isTrue := by rw [Value.isTrue, Value.isTrue, h.isFalse_eq]

theorem isBoolean_eq : v.isBoolean = w.isBoolean := by
  rw [Bool.eq_iff_iff]
  simp only [Value.isBoolean, Value.boolean, Bool.or_eq_true, beq_iff_eq, h.eq_symbol_iff]

end Value.Matches

theorem map_eq_of_forall₂ {α β γ : Type} {R : α → β → Prop} {f : α → γ} {g : β → γ} {as : List α}
    {bs : List β} (h : List.Forall₂ R as bs) (hfg : ∀ a b, R a b → f a = g b) :
    as.map f = bs.map g := by
  rw [← List.forall₂_eq_eq_eq, List.forall₂_map_left_iff, List.forall₂_map_right_iff]
  exact h.imp hfg

section Options

variable {α β γ δ : Type} {R : α → β → Prop} {a : Option α} {b : Option β}

theorem isSome_eq_of_rel (h : Option.Rel R a b) : a.isSome = b.isSome := by
  cases h <;> rfl

theorem rel_map {R' : γ → δ → Prop} {f : α → γ} {g : β → δ} (h : Option.Rel R a b)
    (hfg : ∀ a b, R a b → R' (f a) (g b)) : Option.Rel R' (a.map f) (b.map g) := by
  cases h with
  | none => exact .none
  | some hab => exact .some (hfg _ _ hab)

theorem rel_bind {R' : γ → δ → Prop} {f : α → Option γ} {g : β → Option δ}
    (h : Option.Rel R a b) (hfg : ∀ a b, R a b → Option.Rel R' (f a) (g b)) :
    Option.Rel R' (a.bind f) (b.bind g) := by
  cases h with
  | none => exact .none
  | some hab => exact hfg _ _ hab

end Options

namespace Store.Mirrors

variable (h : Mirrors M s t)
include h

theorem pair {p q : Address} (hpq : M (.pair p) (.pair q)) : (s.pair p).Matches M (t.pair q) := by
  cases h.content hpq
  assumption

theorem closure {c d : Address} (hcd : M (.closure c) (.closure d)) :
    (s.closure c).Matches M (t.closure d) := by
  cases h.content hcd
  assumption

theorem scope {d e : Address} (hde : M (.scope d) (.scope e)) :
    (s.scope d).Matches M (t.scope e) := by
  cases h.content hde
  assumption

theorem first {p q : Address} (hpq : M (.pair p) (.pair q)) :
    (s.first p).Matches M (t.first q) :=
  (h.pair hpq).first

theorem second {p q : Address} (hpq : M (.pair p) (.pair q)) :
    (s.second p).Matches M (t.second q) :=
  (h.pair hpq).second

section Chains

theorem elementsWithin (hvw : v.Matches M w) (k : Nat) :
    Option.Rel (List.Forall₂ (Value.Matches M)) (s.elementsWithin k v) (t.elementsWithin k w) := by
  have hatom (k : Nat) (a : Atom) : Option.Rel (List.Forall₂ (Value.Matches M))
      (s.elementsWithin k (.atom a)) (t.elementsWithin k (.atom a)) := by
    unfold Store.elementsWithin
    split
    · exact .some .nil
    · exact .none
  induction k generalizing v w with
  | zero =>
    cases hvw with
    | atom a _ => exact hatom 0 a
    | closure _ | pair _ => exact .none
  | succ k ih =>
    cases hvw with
    | atom a _ => exact hatom (k + 1) a
    | closure _ => exact .none
    | pair hpq => exact rel_map (ih (h.second hpq)) fun _ _ ↦ .cons (h.first hpq)

/-- Both stores find the same elements, though they may not be of the same size. -/
theorem elements? (hvw : v.Matches M w) :
    Option.Rel (List.Forall₂ (Value.Matches M)) (s.elements? v) (t.elements? w) := by
  have hs := Nat.le_max_left (s.pairs.size + 1) (t.pairs.size + 1)
  have ht := Nat.le_max_right (s.pairs.size + 1) (t.pairs.size + 1)
  rw [elements?_eq_elementsWithin hs, elements?_eq_elementsWithin ht]
  exact h.elementsWithin hvw _

theorem isList_eq (hvw : v.Matches M w) : s.isList v = t.isList w := by
  rw [← isSome_elements?, ← isSome_elements?, isSome_eq_of_rel (h.elements? hvw)]

theorem follow (hvw : v.Matches M w) (k : Nat) :
    Option.Rel (Value.Matches M) (s.follow k v) (t.follow k w) := by
  induction k generalizing v w with
  | zero => exact .some hvw
  | succ k ih =>
    cases hvw with
    | atom a _ => exact .none
    | closure _ => exact .none
    | pair hpq => exact ih (h.second hpq)

end Chains

section Scopes

theorem chain {d e : Address} (hde : M (.scope d) (.scope e)) :
    List.Forall₂ (fun a b ↦ M (.scope a) (.scope b)) (s.chain d) (t.chain e) :=
  .cons hde (h.scope hde).outer

theorem lookupHere {d e : Address} (hde : M (.scope d) (.scope e)) (name : String) :
    Option.Rel (Value.Matches M) (s.lookupHere d name) (t.lookupHere e name) := by
  have hb := (h.scope hde).bindings
  rw [Store.lookupHere, Store.lookupHere]
  generalize (s.scope d).bindings = a, (t.scope e).bindings = b at hb
  induction hb with
  | nil => exact .none
  | @cons x y _ _ hxy _ ih =>
    obtain ⟨other, v⟩ := x
    obtain ⟨_, w⟩ := y
    obtain ⟨rfl, hvw⟩ := hxy
    rw [List.lookup_cons, List.lookup_cons]
    cases name == other with
    | false => exact ih
    | true => exact .some hvw

theorem holder {d e : Address} (hde : M (.scope d) (.scope e)) (name : String) :
    Option.Rel (fun a b ↦ M (.scope a) (.scope b)) (s.holder d name) (t.holder e name) := by
  have hc := h.chain hde
  rw [Store.holder, Store.holder]
  generalize s.chain d = as, t.chain e = bs at hc
  induction hc with
  | nil => exact .none
  | @cons a b _ _ hab _ ih =>
    rw [List.find?_cons, List.find?_cons, isSome_eq_of_rel (h.lookupHere hab name)]
    cases (t.lookupHere b name).isSome with
    | false => exact ih
    | true => exact .some hab

theorem lookup {d e : Address} (hde : M (.scope d) (.scope e)) (name : String) :
    Option.Rel (Value.Matches M) (s.lookup d name) (t.lookup e name) := by
  rw [lookup_eq_holder, lookup_eq_holder]
  exact rel_bind (h.holder hde name) fun _ _ hab ↦ h.lookupHere hab name

end Scopes

section Texts

theorem atomText_eq {a b : Atom} (hab : (Value.atom a).Matches M (.atom b)) :
    s.atomText a = t.atomText b := by
  cases hab with
  | closure hcd => rw [atomText, atomText, Atom.text, Atom.text, (h.closure hcd).parameters_eq]
  | atom a ha =>
    cases a with
    | closure c => exact absurd rfl (ha c)
    | _ => rfl

variable {path path' : List Address}

theorem mem_iff (hpath : List.Forall₂ (fun p q ↦ M (.pair p) (.pair q)) path path')
    {p q : Address} (hpq : M (.pair p) (.pair q)) : p ∈ path ↔ q ∈ path' := by
  have hunique : Relator.BiUnique fun p q ↦ M (.pair p) (.pair q) :=
    ⟨fun _ _ _ ha hb ↦ Node.pair.inj ((h.unique ha hb).2 rfl),
      fun _ _ _ ha hb ↦ Node.pair.inj ((h.unique ha hb).1 rfl)⟩
  exact List.rel_mem hunique hpq hpath

theorem headText_eq (hvw : v.Matches M w)
    (hp : ∀ p q, v = .pair p → M (.pair p) (.pair q) →
      s.spineText path p = t.spineText path' q) : s.headText path v = t.headText path' w := by
  cases hvw with
  | atom a ha => exact h.atomText_eq (.atom a ha)
  | closure hcd => exact h.atomText_eq (.closure hcd)
  | pair hpq => rw [headText, headText, hp _ _ rfl hpq]

theorem tailText_eq (hvw : v.Matches M w)
    (hp : ∀ p q, v = .pair p → M (.pair p) (.pair q) →
      s.spineText path p = t.spineText path' q) : s.tailText path v = t.tailText path' w := by
  cases hvw with
  | pair hpq => rw [tailText, tailText, hp _ _ rfl hpq]
  | closure hcd => exact congrArg (" . " ++ · ++ ")") (h.atomText_eq (.closure hcd))
  | atom a ha =>
    have ht := h.atomText_eq (.atom a ha)
    cases a with
    | nil => rfl
    | _ => exact congrArg (" . " ++ · ++ ")") ht

/-- A pair comes back on one way down exactly where its counterpart does on the other. -/
theorem spineText_eq (hpath : List.Forall₂ (fun p q ↦ M (.pair p) (.pair q)) path path')
    {p q : Address} (hpq : M (.pair p) (.pair q)) : s.spineText path p = t.spineText path' q := by
  induction path, p using spineText.induct s generalizing path' q with
  | case1 path p hp =>
    rw [spineText_of_mem hp, spineText_of_mem ((h.mem_iff hpath hpq).1 hp)]
  | case2 path p hp ihf ihs =>
    rw [spineText_of_notMem hp, spineText_of_notMem (mt (h.mem_iff hpath hpq).2 hp)]
    have hf := h.headText_eq (h.first hpq) fun _ _ hv ↦ ihf _ hv (.cons hpq hpath)
    have hs := h.tailText_eq (h.second hpq) fun _ _ hv ↦ ihs _ hv (.cons hpq hpath)
    rw [hf, hs]

theorem text_eq (hvw : v.Matches M w) : s.text v = t.text w := by
  cases hvw with
  | atom a ha => exact h.atomText_eq (.atom a ha)
  | closure hcd => exact h.atomText_eq (.closure hcd)
  | pair hpq => rw [text, text, h.spineText_eq .nil hpq]

theorem sortedNames_eq {d e : Address} (hde : M (.scope d) (.scope e)) :
    s.sortedNames d = t.sortedNames e := by
  have hn := map_eq_of_forall₂ (h.scope hde).bindings fun _ _ hab ↦ hab.1
  rw [sortedNames, sortedNames, Bindings.names, Bindings.names, hn]

theorem scopesText_eq {d e : Address} (hde : M (.scope d) (.scope e)) :
    s.scopesText d = t.scopesText e := by
  have hc := h.chain hde
  rw [scopesText, scopesText]
  generalize s.chain d = as, t.chain e = bs, 0 = k at hc
  congr 1
  induction hc generalizing k with
  | nil => rfl
  | cons hab _ ih =>
    rw [List.zipIdx_cons, List.zipIdx_cons, List.map_cons, List.map_cons, ih]
    dsimp only
    rw [h.sortedNames_eq hab]

end Texts

end Store.Mirrors

end MiniScheme
