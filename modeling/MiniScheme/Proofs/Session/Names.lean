import MiniScheme.Proofs.Session.Keep
import MiniScheme.Proofs.Store.Grounded
import Mathlib

namespace MiniScheme

/-- The given names stay bound in the global scope, and nothing fails for want of one of them. -/
def Discipline.binding (global : Address) (names : String → Prop) : Discipline where
  Holds s := s.Grounded global names
  Visible s e := e < s.scopes.size
  Known _ _ := True
  Ready s c := c.scope < s.scopes.size
  Allowed e := ∀ name, names name → e ≠ .unboundName name
  visible_mono hs he := Nat.lt_of_lt_of_le he hs.scopes_le
  known_mono _ _ := trivial
  ready_mono hs hc := Nat.lt_of_lt_of_le hc hs.scopes_le
  known_nil _ := trivial
  known_integer _ _ := trivial
  known_boolean _ _ := trivial
  known_first _ _ := trivial
  known_second _ _ := trivial
  known_ready hd _ := hd.captured_lt _
  ready_body _ _ _ := trivial
  known_lookup _ _ _ := trivial
  cons hd _ _ := ⟨hd.cons _ _, trivial⟩
  setFirst hd _ _ := hd.setFirst _ _
  setSecond hd _ _ := hd.setSecond _ _
  newClosure hd _ _ he := ⟨hd.newClosure he, trivial⟩
  openScope hd hc _ := ⟨hd.openScope hc _, Store.openScope_lt _ _ _⟩
  define hd _ _ _ := hd.bindHere _ _ _
  assign hd _ _ ha := hd.assign ha
  unbound hd he _ hl name hn heq := by
    cases heq
    have hs := hd.isSome_lookup he hn
    rw [hl] at hs
    cases hs
  shown _ _ := by simp
  unread _ := by simp
  plain hp name _ he := by
    rw [he] at hp
    exact hp

namespace Session

/-- The name is bound in the scope in which lines are evaluated. -/
def Binds (session : Session) (name : String) : Prop :=
  (session.store.lookupHere session.global name).isSome = true

variable {session : Session} {depth : Nat} {verbosity : Verbosity}

theorem grounded_new :
    new.store.Grounded new.global (· ∈ Builtin.all.map Builtin.name) where
  global_lt := by decide
  getLast_chain {e} he := by
    obtain rfl : e = 0 := Nat.lt_one_iff.1 he
    rfl
  captured_lt c := by
    have hc : new.store.closure c = ⟨[], [], 0⟩ := by
      simp [Store.closure, new, Store.newGlobal, Store.newScope, Store.empty]
    rw [hc]
    decide
  bound {name} hn := by
    obtain ⟨b, hb, rfl⟩ := List.mem_map.1 hn
    revert b
    decide

/-- A name that is bound once is found in every later line, whatever the lines do. -/
theorem runAll_never_unbound {depth' : Nat} {verbosity' : Verbosity} {before after : List String}
    {earlier later : List Reply} {final : Session} {name : String}
    (hb : Session.new.runAll depth verbosity before = .ok (earlier, session))
    (hn : session.Binds name ∨ name ∈ Builtin.all.map Builtin.name)
    (ha : session.runAll depth' verbosity' after = .ok (later, final)) :
    (∀ reply ∈ later, reply.answer ≠ .error (.unboundName name)) ∧ final.Binds name := by
  have hknown (g : Address) (names : String → Prop) (s : Store) (text : String) (d : Datum)
      (h : Datum.ofText text = .ok d) : (Discipline.binding g names).KnownAtoms s d :=
    Discipline.knownAtoms_of_ofText h fun _ ↦ trivial
  have hnew : new.Keeps (.binding new.global (· ∈ Builtin.all.map Builtin.name)) :=
    ⟨grounded_new, grounded_new.global_lt⟩
  obtain ⟨hg, hs, -⟩ := hnew.runAll (hknown _ _) hb
  have hbuiltin : session.store.Grounded session.global (· ∈ Builtin.all.map Builtin.name) := by
    rw [hg]
    exact hs.holds
  have hname : session.store.Grounded session.global (· = name) := by
    refine ⟨hbuiltin.global_lt, hbuiltin.getLast_chain, hbuiltin.captured_lt, ?_⟩
    intro other he
    subst he
    rcases hn with hn | hn
    · exact hn
    · exact hbuiltin.bound hn
  have hkeeps : session.Keeps (.binding session.global (· = name)) := ⟨hname, hname.global_lt⟩
  obtain ⟨hg', hf, hall⟩ := hkeeps.runAll (hknown _ _) ha
  constructor
  · intro reply hr hu
    obtain ⟨middle, -, hanswer⟩ := hall reply hr
    exact hanswer.error _ hu name rfl rfl
  · have hb := hf.holds.bound rfl
    rw [← hg'] at hb
    exact hb

def shadowingLines : List String :=
  ["((lambda (x) (set! x 2)) 3)", "(x)", "x"]

/-- The name is hidden by a parameter, which is assigned, and then a call fails. -/
theorem runAll_never_unbound_shadowed :
    ∃ earlier session later final,
      Session.new.runAll 9 .silent ["(define x 1)"] = .ok (earlier, session) ∧
      session.Binds "x" ∧ session.runAll 9 .silent shadowingLines = .ok (later, final) ∧
      (∀ reply ∈ later, reply.answer ≠ .error (.unboundName "x")) ∧ final.Binds "x" := by
  have hrun : ((Session.new.runAll 9 .silent ["(define x 1)"]).bind fun first ↦
      (first.2.runAll 9 .silent shadowingLines).map fun _ ↦
        (first.2.store.lookupHere first.2.global "x").isSome) = .ok true := by
    cbv
  rcases hb : Session.new.runAll 9 .silent ["(define x 1)"] with _ | ⟨earlier, session⟩
  · rw [hb] at hrun
    cases hrun
  · rw [hb] at hrun
    dsimp only [Except.bind] at hrun
    rcases ha : session.runAll 9 .silent shadowingLines with _ | ⟨later, final⟩
    · rw [ha] at hrun
      cases hrun
    · rw [ha] at hrun
      have hx : session.Binds "x" := Except.ok.inj hrun
      have hf := runAll_never_unbound hb (.inl hx) ha
      exact ⟨earlier, session, later, final, rfl, hx, ha, hf⟩

end Session

end MiniScheme
