import MiniScheme.Proofs.Eval.Keep
import MiniScheme.Proofs.Store.Naming
import MiniScheme.Session.Basic
import Mathlib

namespace MiniScheme

/-- Names are bound in the given scope and in scopes that are new, nowhere else. -/
def Discipline.confining (s : Store) (e : Address) : Discipline where
  Holds t := s.Precedes t ∧ s.ConfinesNames e t
  Visible _ d := d = e ∨ s.scopes.size ≤ d
  Known _ _ := True
  Ready _ _ := True
  Allowed _ := True
  visible_mono _ hd := hd
  known_mono _ _ := trivial
  ready_mono _ _ := trivial
  known_nil _ := trivial
  known_integer _ _ := trivial
  known_boolean _ _ := trivial
  known_first _ _ := trivial
  known_second _ _ := trivial
  known_ready _ _ := trivial
  ready_body _ _ _ := trivial
  known_lookup _ _ _ := trivial
  cons hd _ _ := ⟨⟨hd.1.trans (Store.precedes_cons _ _ _), hd.2.of_names_eq fun _ _ ↦ rfl⟩, trivial⟩
  setFirst hd _ _ :=
    ⟨hd.1.trans (Store.precedes_setFirst _ _ _), hd.2.of_names_eq fun _ _ ↦ rfl⟩
  setSecond hd _ _ :=
    ⟨hd.1.trans (Store.precedes_setSecond _ _ _), hd.2.of_names_eq fun _ _ ↦ rfl⟩
  newClosure hd _ _ _ :=
    ⟨⟨hd.1.trans (Store.precedes_newClosure _ _), hd.2.of_names_eq fun _ _ ↦ rfl⟩, trivial⟩
  openScope hd _ _ :=
    ⟨⟨hd.1.trans (Store.precedes_openScope _ _ _), hd.2.of_names_eq fun _ ha ↦
      Store.names_openScope_of_lt _ _ (Nat.lt_of_lt_of_le ha hd.1.scopes_le)⟩,
      .inr hd.1.scopes_le⟩
  define hd hv _ _ := ⟨hd.1.trans (Store.precedes_bindHere _ _ _ _), hd.2.bindHere hv _ _⟩
  assign hd _ _ ha :=
    ⟨hd.1.trans (Store.precedes_assign ha), hd.2.of_names_eq fun d _ ↦ Store.names_assign ha d⟩
  unbound _ _ _ _ := trivial
  shown _ _ := ⟨trivial, trivial⟩
  unread _ := trivial
  plain _ := trivial

namespace Eval

theorem holds_confining (s : Store) (e : Address) : (Discipline.confining s e).Holds s :=
  ⟨.refl s, .refl s e⟩

/-- Definitions stay in the scope they are written in: an evaluation binds new names only there, and
the body of a closure binds none in any scope from before its call. No scope moves. -/
theorem eval_confinesNames (depth : Nat) (verbosity : Verbosity) (s : Store) :
    (∀ x e run, eval depth x e verbosity s = .ok run →
      s.ConfinesNames e run.store ∧
        ∀ d < s.scopes.size, (run.store.scope d).outer = (s.scope d).outer) ∧
    ∀ c received run, callBody (eval depth) c received verbosity s = .ok run →
      ∀ d < s.scopes.size, run.store.names d = s.names d := by
  constructor
  · intro x e run hr
    have hk := Discipline.evaluates_eval depth (holds_confining s e) (x := x) trivial (.inl rfl)
    obtain ⟨hs, hn⟩ := ((hk verbosity).2 run hr).holds
    exact ⟨hn, fun d hd ↦ List.tail_eq_of_cons_eq (hs.chain_eq hd)⟩
  · intro c received run hr d hd
    -- The first new scope is the one of the call, so no scope from before is excepted.
    have hk := Discipline.runs_callBody (Discipline.evaluates_eval depth)
      (holds_confining s s.scopes.size) (c := c) trivial fun v (_ : v ∈ received) ↦ trivial
    exact (((hk verbosity).2 run hr).holds.2).names_eq hd (Nat.ne_of_lt hd)

/-- An expression that calls `d`, in a store where scope 1 binds that to the form that binds
names. -/
def callOfBinder : Value × Store :=
  (Session.new.store.openScope 0 [("d", .builtin (.form .define))]).2.load
    (.ofList [.symbol "d", .symbol "y", .integer 1] .nil)

/-- The call binds the name in scope 1 when it is made there, and in a new scope when a closure
makes it. -/
theorem eval_confinesNames_aliased :
    (∃ run, eval 9 callOfBinder.1 1 .silent callOfBinder.2 = .ok run ∧
      run.store.names 1 = ["d", "y"] ∧ callOfBinder.2.ConfinesNames 1 run.store) ∧
    ∃ run, callBody (eval 9) ⟨[], [callOfBinder.1], 1⟩ [] .silent callOfBinder.2 = .ok run ∧
      run.store.names 2 = ["y"] ∧ run.store.names 1 = callOfBinder.2.names 1 := by
  have hcall : (eval 9 callOfBinder.1 1 .silent callOfBinder.2).map (fun run ↦ run.store.names 1) =
      .ok ["d", "y"] := by
    cbv
  have hbody : (callBody (eval 9) ⟨[], [callOfBinder.1], 1⟩ [] .silent callOfBinder.2).map
      (fun run ↦ run.store.names 2) = .ok ["y"] := by
    cbv
  obtain ⟨run, hr, hn⟩ := exists_of_map_eq_ok hcall
  obtain ⟨run', hr', hn'⟩ := exists_of_map_eq_ok hbody
  have hone : 1 < callOfBinder.2.scopes.size := by decide
  exact ⟨⟨run, hr, hn, ((eval_confinesNames 9 .silent _).1 _ _ _ hr).1⟩,
    ⟨run', hr', hn', (eval_confinesNames 9 .silent _).2 _ _ _ hr' 1 hone⟩⟩

end Eval

end MiniScheme
