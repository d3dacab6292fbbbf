import MiniScheme.Proofs.Store.Extend
import MiniScheme.Proofs.Store.Frame
import MiniScheme.Proofs.Store.Mirror
import Mathlib.Order.Basic

namespace MiniScheme

variable {M N L : Correspondence} {s t s' t' s'' t'' : Store} {v w v' w' : Value}
  {vs ws : List Value} {n m : Node}

def Correspondence.insert (M : Correspondence) (n m : Node) : Correspondence :=
  fun a b ↦ M a b ∨ a = n ∧ b = m

theorem Correspondence.le_insert (M : Correspondence) (n m : Node) : M ≤ M.insert n m :=
  fun _ _ ↦ .inl

theorem Bindings.Matches.insert {a b : Bindings} (h : a.Matches M b) (hvw : v.Matches M w)
    (name : String) : (Bindings.insert name v a).Matches M (Bindings.insert name w b) := by
  induction h with
  | nil => exact .cons ⟨rfl, hvw⟩ .nil
  | @cons x y _ _ hxy hrest ih =>
    obtain ⟨other, v'⟩ := x
    obtain ⟨_, w'⟩ := y
    obtain ⟨rfl, hvw'⟩ := hxy
    rw [Bindings.insert, Bindings.insert]
    split
    · exact .cons ⟨rfl, hvw⟩ hrest
    · exact .cons ⟨rfl, hvw'⟩ ih

theorem Bindings.Matches.zip (h : List.Forall₂ (Value.Matches M) vs ws) (names : List String) :
    Bindings.Matches M (names.zip vs) (names.zip ws) := by
  induction h generalizing names with
  | nil =>
    rw [List.zip_nil_right]
    exact .nil
  | cons hvw _ ih =>
    cases names with
    | nil => exact .nil
    | cons name names => exact .cons ⟨rfl, hvw⟩ (ih names)

/-- No atom of the tree is a closure, so it means the same in every store. -/
def Datum.Plain : Datum → Prop
  | .atom a => ∀ c, a ≠ .closure c
  | .cons first second => first.Plain ∧ second.Plain

namespace Store

/-- Two stores have changed together: what has corresponded still does, and besides that only what
is new in both. -/
structure Advances (M : Correspondence) (s t : Store) (N : Correspondence) (s' t' : Store) :
    Prop where
  mirrors : Mirrors N s' t'
  left : s.Precedes s'
  right : t.Precedes t'
  le : M ≤ N
  fresh {n m : Node} (h : N n m) : M n m ∨ ¬ s.Contains n ∧ ¬ t.Contains m

/-- Two results with the stores after them, from stores that mirror each other to such stores. -/
def MovesTo {α β : Type} (M : Correspondence) (s t : Store) (Q : Correspondence → α → β → Prop)
    (x : α × Store) (y : β × Store) : Prop :=
  ∃ N, Advances M s t N x.2 y.2 ∧ Q N x.1 y.1

theorem Mirrors.advances (h : Mirrors M s t) : Advances M s t M s t :=
  ⟨h, .refl s, .refl t, le_refl M, .inl⟩

theorem Advances.trans (h : Advances M s t N s' t') (h' : Advances N s' t' L s'' t'') :
    Advances M s t L s'' t'' where
  mirrors := h'.mirrors
  left := h.left.trans h'.left
  right := h.right.trans h'.right
  le := h.le.trans h'.le
  fresh hl := by
    rcases h'.fresh hl with hn | ⟨hs, ht⟩
    · exact h.fresh hn
    · exact .inr ⟨not_contains_of_precedes h.left hs, not_contains_of_precedes h.right ht⟩

theorem MovesTo.trans {α β γ δ : Type} {P : Correspondence → α → β → Prop}
    {Q : Correspondence → γ → δ → Prop} {x : α × Store} {y : β × Store} {x' : γ × Store}
    {y' : δ × Store} (h : MovesTo M s t P x y)
    (h' : ∀ N, Advances M s t N x.2 y.2 → P N x.1 y.1 → MovesTo N x.2 y.2 Q x' y') :
    MovesTo M s t Q x' y' := by
  obtain ⟨N, hN, hp⟩ := h
  obtain ⟨L, hL, hq⟩ := h' N hN hp
  exact ⟨L, hN.trans hL, hq⟩

section Overwrite

/-- The contents of one node change on either side, and nothing is made. -/
theorem Mirrors.overwrite (h : Mirrors M s t) (hs : s.Precedes s') (ht : t.Precedes t')
    (hnm : M n m) (hat : MatchesAt M s' t' n m)
    (hother : ∀ a b, a ≠ n → b ≠ m → MatchesAt M s t a b → MatchesAt M s' t' a b) :
    Advances M s t M s' t' where
  mirrors.contains hab := ⟨(h.contains hab).1.mono hs, (h.contains hab).2.mono ht⟩
  mirrors.unique := h.unique
  mirrors.content {a b} hab := by
    by_cases ha : a = n
    · obtain rfl := ha
      obtain rfl := (h.unique hab hnm).1 rfl
      exact hat
    · exact hother a b ha (mt (h.unique hab hnm).2 ha) (h.content hab)
  left := hs
  right := ht
  le := le_refl M
  fresh := .inl

variable (h : Mirrors M s t)
include h

theorem Mirrors.setFirst {p q : Address} (hpq : M (.pair p) (.pair q)) (hvw : v.Matches M w) :
    Advances M s t M (s.setFirst p v) (t.setFirst q w) := by
  refine h.overwrite (precedes_setFirst s p v) (precedes_setFirst t q w) hpq (.pair ?_)
    fun _ _ hn hm hab ↦ ?_
  · rw [pair_setFirst_self v (h.contains hpq).1, pair_setFirst_self w (h.contains hpq).2]
    exact ⟨hvw, h.second hpq⟩
  · cases hab with
    | pair hab =>
      rw [← pair_setFirst_of_ne v (mt (congrArg Node.pair) hn),
        ← pair_setFirst_of_ne w (mt (congrArg Node.pair) hm)] at hab
      exact .pair hab
    | closure hab => exact .closure hab
    | scope hab => exact .scope hab

theorem Mirrors.setSecond {p q : Address} (hpq : M (.pair p) (.pair q)) (hvw : v.Matches M w) :
    Advances M s t M (s.setSecond p v) (t.setSecond q w) := by
  refine h.overwrite (precedes_setSecond s p v) (precedes_setSecond t q w) hpq (.pair ?_)
    fun _ _ hn hm hab ↦ ?_
  · rw [pair_setSecond_self v (h.contains hpq).1, pair_setSecond_self w (h.contains hpq).2]
    exact ⟨h.first hpq, hvw⟩
  · cases hab with
    | pair hab =>
      rw [← pair_setSecond_of_ne v (mt (congrArg Node.pair) hn),
        ← pair_setSecond_of_ne w (mt (congrArg Node.pair) hm)] at hab
      exact .pair hab
    | closure hab => exact .closure hab
    | scope hab => exact .scope hab

theorem Mirrors.bindHere {d e : Address} (hde : M (.scope d) (.scope e)) (hvw : v.Matches M w)
    (name : String) : Advances M s t M (s.bindHere d name v) (t.bindHere e name w) := by
  refine h.overwrite (precedes_bindHere s d name v) (precedes_bindHere t e name w) hde (.scope ?_)
    fun _ _ hn hm hab ↦ ?_
  · rw [scope_bindHere_self name v (h.contains hde).1,
      scope_bindHere_self name w (h.contains hde).2]
    exact ⟨(h.scope hde).bindings.insert hvw name, (h.scope hde).outer⟩
  · cases hab with
    | pair hab => exact .pair hab
    | closure hab => exact .closure hab
    | scope hab =>
      rw [← scope_bindHere_of_ne name v (mt (congrArg Node.scope) hn),
        ← scope_bindHere_of_ne name w (mt (congrArg Node.scope) hm)] at hab
      exact .scope hab

theorem Mirrors.bindAll {d e : Address} (hde : M (.scope d) (.scope e)) {a b : Bindings}
    (hab : a.Matches M b) : Advances M s t M (s.bindAll d a) (t.bindAll e b) := by
  induction hab generalizing s t with
  | nil => exact h.advances
  | @cons x y _ _ hxy _ ih =>
    obtain ⟨name, v⟩ := x
    obtain ⟨_, w⟩ := y
    obtain ⟨rfl, hvw⟩ := hxy
    have hfirst := h.bindHere hde hvw name
    exact hfirst.trans (ih hfirst.mirrors)

theorem Mirrors.assign {d e : Address} (hde : M (.scope d) (.scope e)) (hvw : v.Matches M w)
    (name : String) :
    Option.Rel (Advances M s t M) (s.assign d name v) (t.assign e name w) :=
  rel_map (h.holder hde name) fun _ _ hab ↦ h.bindHere hab hvw name

end Overwrite

section Insert

theorem MatchesAt.of_extendedBy (h : MatchesAt M s t n m) (hn : s.Contains n) (hm : t.Contains m)
    (hs : s.ExtendedBy s') (ht : t.ExtendedBy t') : MatchesAt M s' t' n m := by
  cases h with
  | pair h =>
    rw [← hs.pair_eq hn, ← ht.pair_eq hm] at h
    exact .pair h
  | closure h =>
    rw [← hs.precedes.closure_eq hn, ← ht.precedes.closure_eq hm] at h
    exact .closure h
  | scope h =>
    rw [← hs.scope_eq hn, ← ht.scope_eq hm] at h
    exact .scope h

/-- Two nodes are made, with contents that match. -/
theorem Mirrors.insert (h : Mirrors M s t) (hs : s.ExtendedBy s') (ht : t.ExtendedBy t')
    (hn : ¬ s.Contains n) (hn' : s'.Contains n) (hm : ¬ t.Contains m) (hm' : t'.Contains m)
    (hc : MatchesAt (M.insert n m) s' t' n m) : Advances M s t (M.insert n m) s' t' where
  mirrors.contains hab := by
    rcases hab with hab | ⟨rfl, rfl⟩
    · exact ⟨(h.contains hab).1.mono hs.precedes, (h.contains hab).2.mono ht.precedes⟩
    · exact ⟨hn', hm'⟩
  mirrors.unique hab hab' := by
    have hne {a b : Node} (hold : M a b) : a ≠ n ∧ b ≠ m := by
      constructor
      · rintro rfl
        exact hn (h.contains hold).1
      · rintro rfl
        exact hm (h.contains hold).2
    rcases hab with hab | ⟨rfl, rfl⟩ <;> rcases hab' with hab' | ⟨rfl, rfl⟩
    · exact h.unique hab hab'
    · exact iff_of_false (hne hab).1 (hne hab).2
    · exact iff_of_false (hne hab').1.symm (hne hab').2.symm
    · exact iff_of_true rfl rfl
  mirrors.content hab := by
    rcases hab with hab | ⟨rfl, rfl⟩
    · have hcontains := h.contains hab
      exact ((h.content hab).of_extendedBy hcontains.1 hcontains.2 hs ht).mono (M.le_insert n m)
    · exact hc
  left := hs.precedes
  right := ht.precedes
  le := M.le_insert n m
  fresh hab := by
    rcases hab with hab | ⟨rfl, rfl⟩
    · exact .inl hab
    · exact .inr ⟨hn, hm⟩

variable (h : Mirrors M s t)
include h

theorem Mirrors.cons (hvw : v.Matches M w) (hvw' : v'.Matches M w') :
    MovesTo M s t Value.Matches (s.cons v v') (t.cons w w') := by
  have hle := M.le_insert (.pair s.pairs.size) (.pair t.pairs.size)
  refine ⟨_, h.insert (extendedBy_cons s v v') (extendedBy_cons t w w') (not_contains_pair_size s)
    (contains_cons.2 (.inl rfl)) (not_contains_pair_size t) (contains_cons.2 (.inl rfl)) ?_,
    .pair (.inr ⟨rfl, rfl⟩)⟩
  apply MatchesAt.pair
  rw [pair_cons_size, pair_cons_size]
  exact ⟨hvw.mono hle, hvw'.mono hle⟩

theorem Mirrors.newClosure {c d : Closure} (hcd : c.Matches M d) :
    MovesTo M s t Value.Matches (s.newClosure c) (t.newClosure d) := by
  have hle := M.le_insert (.closure s.closures.size) (.closure t.closures.size)
  refine ⟨_, h.insert (extendedBy_newClosure s c) (extendedBy_newClosure t d)
    (not_contains_closure_size s) (contains_newClosure.2 (.inl rfl))
    (not_contains_closure_size t) (contains_newClosure.2 (.inl rfl)) ?_,
    .closure (.inr ⟨rfl, rfl⟩)⟩
  apply MatchesAt.closure
  rw [closure_newClosure_size, closure_newClosure_size]
  exact hcd.mono hle

theorem Mirrors.newScope {a b : Scope} (hab : a.Matches M b) :
    MovesTo M s t (fun N d e ↦ N (.scope d) (.scope e)) (s.newScope a) (t.newScope b) := by
  have hle := M.le_insert (.scope s.scopes.size) (.scope t.scopes.size)
  refine ⟨_, h.insert (extendedBy_newScope s a) (extendedBy_newScope t b)
    (not_contains_scope_size s) (contains_newScope.2 (.inl rfl))
    (not_contains_scope_size t) (contains_newScope.2 (.inl rfl)) ?_, .inr ⟨rfl, rfl⟩⟩
  apply MatchesAt.scope
  rw [scope_newScope_size, scope_newScope_size]
  exact hab.mono hle

theorem Mirrors.openScope {d e : Address} (hde : M (.scope d) (.scope e)) {a b : Bindings}
    (hab : a.Matches M b) :
    MovesTo M s t (fun N d e ↦ N (.scope d) (.scope e)) (s.openScope d a) (t.openScope e b) := by
  have hchild := h.newScope (a := ⟨[], s.chain d⟩) (b := ⟨[], t.chain e⟩) ⟨.nil, h.chain hde⟩
  obtain ⟨N, hN, hnew⟩ := hchild
  exact ⟨N, hN.trans (hN.mirrors.bindAll hnew (hab.mono hN.le)), hnew⟩

theorem Mirrors.ofList (hvs : List.Forall₂ (Value.Matches M) vs ws) (hvw : v.Matches M w) :
    MovesTo M s t Value.Matches (s.ofList vs v) (t.ofList ws w) := by
  induction hvs with
  | nil => exact ⟨M, h.advances, hvw⟩
  | cons hfirst _ ih => exact ih.trans fun N hN hrest ↦ hN.mirrors.cons (hfirst.mono hN.le) hrest

/-- A tree without closures is loaded into both stores alike. -/
theorem Mirrors.load {d : Datum} (hd : d.Plain) :
    MovesTo M s t Value.Matches (s.load d) (t.load d) := by
  induction d generalizing M s t with
  | atom a => exact ⟨M, h.advances, .atom a hd⟩
  | cons d e ihd ihe =>
    refine (ihd h hd.1).trans fun N hN hfirst ↦ ?_
    refine (ihe hN.mirrors hd.2).trans fun L hL hsecond ↦ ?_
    exact hL.mirrors.cons (hfirst.mono hL.le) hsecond

end Insert

section Frame

variable {A : Node → Prop}

theorem exists_of_matches (h : v.Matches M w) (hm : w.node? = some m) : ∃ n, M n m := by
  cases h with
  | closure hcd =>
    cases hm
    exact ⟨_, hcd⟩
  | pair hpq =>
    cases hm
    exact ⟨_, hpq⟩
  | atom a ha =>
    cases a with
    | closure c => exact absurd rfl (ha c)
    | _ => cases hm

theorem exists_of_mem_forall₂ {α β : Type} {R : α → β → Prop} {as : List α} {bs : List β} {b : β}
    (h : List.Forall₂ R as bs) (hb : b ∈ bs) : ∃ a, R a b := by
  induction h with
  | nil => cases hb
  | cons hab _ ih =>
    rcases List.mem_cons.1 hb with rfl | hb
    · exact ⟨_, hab⟩
    · exact ih hb

/-- What stands for something leads only to what does too. -/
theorem Mirrors.closedUnder (h : Mirrors M s t) : t.ClosedUnder fun m ↦ ∃ n, M n m := by
  rintro m m' ⟨n, hnm⟩ hm
  cases h.content hnm with
  | pair hp =>
    rcases mem_successors_pair.1 hm with hm | hm
    · exact exists_of_matches hp.first hm
    · exact exists_of_matches hp.second hm
  | closure hc =>
    rcases List.mem_cons.1 hm with rfl | hm
    · exact ⟨_, hc.scope⟩
    · obtain ⟨w, hw, hm⟩ := List.mem_filterMap.1 hm
      obtain ⟨v, hvw⟩ := exists_of_mem_forall₂ hc.body hw
      exact exists_of_matches hvw hm
  | scope he =>
    rcases List.mem_append.1 hm with hm | hm
    · obtain ⟨e, hmem, rfl⟩ := List.mem_map.1 hm
      obtain ⟨d, hde⟩ := exists_of_mem_forall₂ he.outer hmem
      exact ⟨_, hde⟩
    · obtain ⟨b, hb, hm⟩ := List.mem_filterMap.1 hm
      obtain ⟨a, hab⟩ := exists_of_mem_forall₂ he.bindings hb
      exact exists_of_matches hab.2 hm

/-- Changes elsewhere do not matter. -/
theorem Mirrors.frame (h : Mirrors M s t) (ht : t.TouchesOnly A t')
    (hA : ∀ n m, M n m → ¬ A m) : Mirrors M s t' where
  contains hnm := ⟨(h.contains hnm).1, (h.contains hnm).2.mono ht.precedes⟩
  unique := h.unique
  content hnm := by
    have hm := (h.contains hnm).2
    have hA := hA _ _ hnm
    cases h.content hnm with
    | pair hp =>
      rw [← ht.pair_eq hm hA] at hp
      exact .pair hp
    | closure hc =>
      rw [← ht.precedes.closure_eq hm] at hc
      exact .closure hc
    | scope he =>
      rw [← ht.scope_eq hm hA] at he
      exact .scope he

end Frame

end Store

end MiniScheme
