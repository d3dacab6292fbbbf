import MiniScheme.Proofs.Eval.Frame
import MiniScheme.Proofs.Session.Keep
import MiniScheme.Proofs.Store.Whole

namespace MiniScheme

/-- Every address that an evaluation comes across is an address of the store. -/
def Discipline.owning : Discipline where
  Holds s := s.Whole
  Visible _ _ := True
  Known s v := s.Owns v
  Ready s c := ∀ v ∈ c.body, s.Owns v
  Allowed _ := True
  visible_mono _ _ := trivial
  known_mono hs hv := hv.mono hs
  ready_mono hs hc v hv := (hc v hv).mono hs
  known_nil s := s.owns_atom (by simp)
  known_integer s n := s.owns_atom (by simp)
  known_boolean s b := s.owns_atom (by simp)
  known_first hd hp := (hd.owns_slots _ (hp.holds _ rfl)).1
  known_second hd hp := (hd.owns_slots _ (hp.holds _ rfl)).2
  known_ready hd _ := hd.owns_body _
  ready_body _ hc hv := hc _ hv
  known_lookup hd _ hl := hd.owns_lookup hl
  cons hd hv hw := ⟨hd.cons hv hw, Store.owns_cons _ _ _⟩
  setFirst hd hp hv := hd.setFirst (hp.holds _ rfl) hv
  setSecond hd hp hv := hd.setSecond (hp.holds _ rfl) hv
  newClosure hd _ hb _ := ⟨hd.newClosure hb, Store.owns_newClosure _ _⟩
  openScope hd _ hvs := ⟨hd.openScope _ fun b hb ↦ hvs b.2 (List.of_mem_zip hb).2, trivial⟩
  define hd _ _ hv := hd.bindHere hv _ _
  assign hd _ hv ha := hd.assign hv ha
  unbound _ _ _ _ := trivial
  shown _ _ := ⟨trivial, trivial⟩
  unread _ := trivial
  plain _ := trivial

namespace Session

variable {session : Session} {depth : Nat} {verbosity : Verbosity}

theorem whole_new : new.store.Whole := by
  apply Store.whole_empty.newScope
  intro name v hl
  dsimp only at hl
  obtain ⟨before, after, hlist, -⟩ := List.lookup_eq_some_iff.1 hl
  have hm : (name, v) ∈ Builtin.all.map fun b ↦ (b.name, Value.builtin b) := by
    rw [hlist]
    simp
  obtain ⟨b, -, hb⟩ := List.mem_map.1 hm
  cases hb
  exact Store.owns_atom _ (by simp)

theorem knownAtoms_owning (s : Store) (text : String) (d : Datum)
    (h : Datum.ofText text = .ok d) : Discipline.owning.KnownAtoms s d :=
  Discipline.knownAtoms_of_ofText h fun _ ↦ s.owns_atom (by simp)

theorem keeps_new_owning : new.Keeps .owning := ⟨whole_new, trivial⟩

/-- No address in a session leads out of its store. -/
theorem whole_of_runAll {lines : List String} {replies : List Reply}
    (h : Session.new.runAll depth verbosity lines = .ok (replies, session)) :
    session.store.Whole := by
  obtain ⟨-, hs, -⟩ := keeps_new_owning.runAll knownAtoms_owning h
  exact hs.holds

/-- Objects of a session can be compared with what is read. -/
theorem equal_load_iff_of_runAll {lines : List String} {replies : List Reply} {v : Value}
    {d : Datum} (h : Session.new.runAll depth verbosity lines = .ok (replies, session))
    (hv : session.store.Holds v) :
    (session.store.load d).2.equal (session.store.load d).1 v = true ↔
      session.store.Unfolds v d :=
  Store.equal_load_iff (whole_of_runAll h).closed hv

section Ways

open Store

theorem closedUnder_contains_new : new.store.ClosedUnder new.store.Contains := by
  apply closedUnder_of_forall_lt
  · exact fun p hp ↦ absurd hp (Nat.not_lt_zero p)
  · exact fun c hc ↦ absurd hc (Nat.not_lt_zero c)
  · intro e he _ m hm
    obtain rfl : e = 0 := Nat.lt_one_iff.1 he
    have hnone : new.store.successors (.scope 0) = [] := by decide
    rw [hnone] at hm
    cases hm
  · exact Nat.one_pos

/-- No way through a session leads out of its store. -/
theorem closedUnder_contains_of_runAll {lines : List String} {replies : List Reply}
    (h : new.runAll depth verbosity lines = .ok (replies, session)) :
    session.store.ClosedUnder session.store.Contains ∧
      session.store.Contains (.scope session.global) := by
  have hkeeps : new.Keeps (.framing new.store new.store.Contains) :=
    ⟨touchesOnly_refl closedUnder_contains_new, .inl Nat.one_pos⟩
  obtain ⟨-, hs, -⟩ := hkeeps.runAll
    (fun s text d hd ↦ Discipline.knownAtoms_of_ofText hd fun name n hn ↦ by cases hn) h
  have htouches : new.store.TouchesOnly new.store.Contains session.store := hs.holds
  have hcontains {n : Node} (hn : OrNew new.store.Contains new.store session.store n) :
      session.store.Contains n :=
    hn.elim (fun hold ↦ hold.mono htouches.precedes) And.right
  refine ⟨fun n m hn hm ↦ hcontains (htouches.closed n m ?_ hm), hcontains hs.visible⟩
  by_cases hold : new.store.Contains n
  · exact .inl hold
  · exact .inr ⟨hold, hn⟩

end Ways

end Session

end MiniScheme
