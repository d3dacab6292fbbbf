import MiniScheme.Proofs.Session.Mirror
import Mathlib.Data.List.Forall2
import Mathlib.Logic.Function.Basic

namespace MiniScheme

namespace Store

/-- Two global scopes in one store, one for each side. -/
def newGlobals (s : Store) : (Bool → Address) × Store :=
  let (left, s) := s.newGlobal
  let (right, s) := s.newGlobal
  (fun side ↦ if side then right else left, s)

theorem matches_builtins (M : Correspondence) :
    Bindings.Matches M (Builtin.all.map fun b ↦ (b.name, .builtin b))
      (Builtin.all.map fun b ↦ (b.name, .builtin b)) := by
  rw [Bindings.Matches, List.forall₂_map_left_iff, List.forall₂_map_right_iff, List.forall₂_same]
  exact fun b _ ↦ ⟨rfl, .builtin b⟩

theorem newGlobals_lt (s : Store) (side : Bool) :
    s.newGlobals.1 side < s.newGlobals.2.scopes.size := by
  cases side <;> simp [newGlobals, newGlobal, newScope]

theorem newGlobals_injective (s : Store) : Function.Injective s.newGlobals.1 := by
  intro side side' h
  cases side <;> cases side' <;> simp_all [newGlobals, newGlobal, newScope]

theorem scope_newGlobals (s : Store) (side : Bool) :
    s.newGlobals.2.scope (s.newGlobals.1 side) =
      ⟨Builtin.all.map fun b ↦ (b.name, .builtin b), []⟩ := by
  cases side with
  | true => exact scope_newScope_size _ _
  | false =>
    have hlt : s.scopes.size < s.newGlobal.2.scopes.size := by simp [newGlobal, newScope]
    exact (scope_newScope_of_lt _ hlt).trans (scope_newScope_size s _)

end Store

namespace Session

open Store

variable {ι : Type}

/-- Lines of several sessions that share one store, each evaluated in the global scope of its own
session. -/
def runMixed (globals : ι → Address) (s : Store) (depth : Nat) (verbosity : Verbosity) :
    List (ι × String) → Except Halt (List (ι × Reply) × Store)
  | [] => .ok ([], s)
  | (i, line) :: lines => do
    let (reply, session) ← run ⟨s, globals i⟩ depth verbosity line
    let (replies, s) ← runMixed globals session.store depth verbosity lines
    return ((i, reply) :: replies, s)

/-- Several sessions in one store look like sessions each in a store of its own, and no two of them
have anything in common. -/
structure Apart (globals : ι → Address) (t : Store) (solo : ι → Session)
    (M : ι → Correspondence) : Prop where
  mirrors (i : ι) : Mirrors (M i) (solo i).store t
  global (i : ι) : M i (.scope (solo i).global) (.scope (globals i))
  disjoint {i j : ι} {n n' m : Node} (h : M i n m) (h' : M j n' m) : i = j

variable {globals : ι → Address} {t : Store} {solo : ι → Session} {M : ι → Correspondence}
  {depth : Nat} {verbosity : Verbosity}

/-- The line of one session touches nothing of the others. -/
theorem Apart.touchesOnly (h : Apart globals t solo M) {i : ι} {line : String} {run : Run String}
    (hr : Eval.answerText depth line (globals i) verbosity t = .ok run) :
    t.TouchesOnly (fun m ↦ ∃ n, M i n m) run.store := by
  have hd := touchesOnly_refl (h.mirrors i).closedUnder
  have hk (d : Datum) (hd : Datum.ofText line = .ok d) :
      (Discipline.framing t fun m ↦ ∃ n, M i n m).KnownAtoms t d :=
    Discipline.knownAtoms_of_ofText hd fun name n hn ↦ by cases hn
  have he : (Discipline.framing t fun m ↦ ∃ n, M i n m).Visible t (globals i) :=
    .inl ⟨_, h.global i⟩
  exact ((Discipline.runs_answerText hd hk he verbosity).2 run hr).holds

theorem Apart.advance [DecidableEq ι] (h : Apart globals t solo M) {i : ι} {next : Session}
    {u : Store} {N : Correspondence} (hN : Advances (M i) (solo i).store t N next.store u)
    (hu : t.TouchesOnly (fun m ↦ ∃ n, M i n m) u) (hg : next.global = (solo i).global) :
    Apart globals u (Function.update solo i next) (Function.update M i N) where
  mirrors j := by
    by_cases hj : j = i
    · subst hj
      simpa using hN.mirrors
    · rw [Function.update_of_ne hj, Function.update_of_ne hj]
      exact (h.mirrors j).frame hu fun n m hnm ⟨n', hnm'⟩ ↦ hj (h.disjoint hnm hnm')
  global j := by
    by_cases hj : j = i
    · subst hj
      simpa [hg] using hN.le _ _ (h.global j)
    · rw [Function.update_of_ne hj, Function.update_of_ne hj]
      exact h.global j
  disjoint {j k n n' m} hj hk := by
    have horigin {j : ι} {n : Node} (hn : Function.update M i N j n m) :
        M j n m ∨ j = i ∧ ¬ t.Contains m := by
      by_cases hji : j = i
      · subst hji
        rw [Function.update_self] at hn
        exact (hN.fresh hn).imp_right fun hnew ↦ ⟨rfl, hnew.2⟩
      · rw [Function.update_of_ne hji] at hn
        exact .inl hn
    rcases horigin hj with hj | ⟨hji, hnot⟩ <;> rcases horigin hk with hk | ⟨hki, hnot'⟩
    · exact h.disjoint hj hk
    · exact absurd ((h.mirrors j).contains hj).2 hnot'
    · exact absurd ((h.mirrors k).contains hk).2 hnot
    · exact hji.trans hki.symm

/-- A session answers in the shared store what it answers alone, and stays apart from the others. -/
theorem Apart.run [DecidableEq ι] (h : Apart globals t solo M) (depth : Nat)
    (verbosity : Verbosity) (i : ι) (line : String) :
    Agrees (fun answered answered' ↦ answered.1 = answered'.1 ∧
        ∃ N, Apart globals answered'.2.store (Function.update solo i answered.2) N)
      ((solo i).run depth verbosity line) (Session.run ⟨t, globals i⟩ depth verbosity line) := by
  have hs : Agrees _ ((solo i).run depth verbosity line)
      (Session.run ⟨t, globals i⟩ depth verbosity line) :=
    run_agrees (h.mirrors i) (h.global i) depth verbosity line
  generalize (solo i).run depth verbosity line = x,
    hy : Session.run ⟨t, globals i⟩ depth verbosity line = y at hs ⊢
  cases hs with
  | error halted => exact .error halted
  | @ok answered answered' hanswered =>
    obtain ⟨reply, next⟩ := answered'
    obtain ⟨hreply, hglobal, -, N, hN⟩ := hanswered
    obtain ⟨run, hrun, -, rfl⟩ := exists_of_run hy
    exact .ok ⟨hreply, _, h.advance hN (h.touchesOnly hrun) hglobal⟩

theorem runMixed_cons_eq_ok_iff {i : ι} {line : String} {lines : List (ι × String)}
    {replies : List (ι × Reply)} :
    (∃ u, runMixed globals t depth verbosity ((i, line) :: lines) = .ok (replies, u)) ↔
      ∃ reply next rest, Session.run ⟨t, globals i⟩ depth verbosity line = .ok (reply, next) ∧
        replies = (i, reply) :: rest ∧
        ∃ u, runMixed globals next.store depth verbosity lines = .ok (rest, u) := by
  constructor
  · rintro ⟨u, h⟩
    rw [runMixed] at h
    obtain ⟨⟨reply, next⟩, hr, h⟩ := exists_of_bind_eq_ok h
    obtain ⟨⟨rest, last⟩, hs, h⟩ := exists_of_bind_eq_ok h
    cases h
    exact ⟨reply, next, rest, hr, rfl, _, hs⟩
  · rintro ⟨reply, next, rest, hr, rfl, u, hs⟩
    refine ⟨u, ?_⟩
    rw [runMixed, hr]
    change (runMixed globals next.store depth verbosity lines >>=
      fun x ↦ pure ((i, reply) :: x.1, x.2)) = _
    rw [hs]
    rfl

theorem runAll_cons_eq_ok_iff {session : Session} {line : String} {lines : List String}
    {replies : List Reply} :
    (∃ last, session.runAll depth verbosity (line :: lines) = .ok (replies, last)) ↔
      ∃ reply next rest, session.run depth verbosity line = .ok (reply, next) ∧
        replies = reply :: rest ∧
        ∃ last, next.runAll depth verbosity lines = .ok (rest, last) := by
  constructor
  · rintro ⟨last, h⟩
    obtain ⟨reply, next, rest, hr, hs, rfl⟩ := exists_of_runAll_cons h
    exact ⟨reply, next, rest, hr, rfl, last, hs⟩
  · rintro ⟨reply, next, rest, hr, rfl, last, hs⟩
    refine ⟨last, ?_⟩
    rw [runAll, hr]
    change (next.runAll depth verbosity lines >>= fun x ↦ pure (reply :: x.1, x.2)) = _
    rw [hs]
    rfl

section Tagged

variable [DecidableEq ι]

/-- What belongs to one session, in order. -/
def tagged {α : Type} (i : ι) (xs : List (ι × α)) : List α :=
  xs.filterMap fun x ↦ if x.1 = i then some x.2 else none

theorem tagged_cons_self {α : Type} (i : ι) (x : α) (xs : List (ι × α)) :
    tagged i ((i, x) :: xs) = x :: tagged i xs := by
  simp [tagged]

theorem tagged_cons_of_ne {α : Type} {i j : ι} (h : j ≠ i) (x : α) (xs : List (ι × α)) :
    tagged i ((j, x) :: xs) = tagged i xs := by
  simp [tagged, h]

/-- After the first line of all, each session goes on from where that line has left it. -/
theorem runAll_tagged_cons_iff {i : ι} {line : String} {lines : List (ι × String)} {reply : Reply}
    {replies : List (ι × Reply)} {next : Session}
    (hr : (solo i).run depth verbosity line = .ok (reply, next)) (j : ι) :
    (∃ last, (solo j).runAll depth verbosity (tagged j ((i, line) :: lines)) =
        .ok (tagged j ((i, reply) :: replies), last)) ↔
      ∃ last, (Function.update solo i next j).runAll depth verbosity (tagged j lines) =
        .ok (tagged j replies, last) := by
  by_cases hj : j = i
  · subst hj
    rw [tagged_cons_self, tagged_cons_self, runAll_cons_eq_ok_iff, Function.update_self, hr]
    constructor
    · rintro ⟨_, _, _, h, heq, hlast⟩
      cases h
      cases heq
      exact hlast
    · exact fun hlast ↦ ⟨reply, next, _, rfl, rfl, hlast⟩
  · rw [tagged_cons_of_ne (Ne.symm hj), tagged_cons_of_ne (Ne.symm hj), Function.update_of_ne hj]

end Tagged

/-- In any interleaving the sessions come to the answers that each of them gives alone. -/
theorem Apart.runMixed [DecidableEq ι] (h : Apart globals t solo M) {lines : List (ι × String)}
    {replies : List (ι × Reply)} :
    (∃ u, Session.runMixed globals t depth verbosity lines = .ok (replies, u)) ↔
      replies.map Prod.fst = lines.map Prod.fst ∧
      ∀ i, ∃ last, (solo i).runAll depth verbosity (tagged i lines) =
        .ok (tagged i replies, last) := by
  induction lines generalizing t solo M replies with
  | nil =>
    constructor
    · rintro ⟨u, hu⟩
      cases hu
      exact ⟨rfl, fun i ↦ ⟨solo i, rfl⟩⟩
    · rintro ⟨htags, -⟩
      obtain rfl := List.map_eq_nil_iff.1 htags
      exact ⟨t, rfl⟩
  | cons x lines ih =>
    obtain ⟨i, line⟩ := x
    have hfirst := h.run depth verbosity i line
    rw [runMixed_cons_eq_ok_iff]
    constructor
    · rintro ⟨reply, next', rest, hr, rfl, hrest⟩
      obtain ⟨⟨_, next⟩, hsolo, rfl, N, hN⟩ := hfirst.exists_left hr
      obtain ⟨htags, hall⟩ := (ih hN).1 hrest
      exact ⟨congrArg (i :: ·) htags, fun j ↦ (runAll_tagged_cons_iff hsolo j).2 (hall j)⟩
    · rintro ⟨htags, hall⟩
      obtain ⟨⟨i, reply⟩, rest, rfl, rfl, hrest⟩ := List.map_eq_cons_iff.1 htags
      have hline := hall i
      rw [tagged_cons_self, tagged_cons_self, runAll_cons_eq_ok_iff] at hline
      obtain ⟨_, next, _, hsolo, heq, -⟩ := hline
      cases heq
      obtain ⟨⟨_, next'⟩, hr, rfl, N, hN⟩ := hfirst.exists_right hsolo
      refine ⟨reply, next', rest, hr, rfl, (ih hN).2 ⟨hrest, fun j ↦ ?_⟩⟩
      exact (runAll_tagged_cons_iff hsolo j).1 (hall j)

theorem apart_newGlobals (s : Store) :
    ∃ M, Apart s.newGlobals.1 s.newGlobals.2 (fun _ ↦ Session.new) M := by
  refine ⟨fun side n m ↦ n = .scope new.global ∧ m = .scope (s.newGlobals.1 side),
    fun side ↦ ⟨?_, ?_, ?_⟩, fun _ ↦ ⟨rfl, rfl⟩, ?_⟩
  · rintro _ _ ⟨rfl, rfl⟩
    exact ⟨Nat.one_pos, newGlobals_lt s side⟩
  · rintro _ _ _ _ ⟨rfl, rfl⟩ ⟨rfl, rfl⟩
    exact iff_of_true rfl rfl
  · rintro _ _ ⟨rfl, rfl⟩
    apply MatchesAt.scope
    rw [scope_newGlobals]
    exact ⟨matches_builtins _, .nil⟩
  · rintro side side' _ _ _ ⟨-, rfl⟩ ⟨-, h⟩
    exact newGlobals_injective s (Node.scope.inj h)

/-- Two sessions in one store, which may hold anything else besides, give to any interleaving of
their lines the answers that each of them gives alone. -/
theorem runMixed_iff_runAll (s : Store) (depth : Nat) (verbosity : Verbosity)
    (lines : List (Bool × String)) (replies : List (Bool × Reply)) :
    (∃ t, Session.runMixed s.newGlobals.1 s.newGlobals.2 depth verbosity lines =
        .ok (replies, t)) ↔
      replies.map Prod.fst = lines.map Prod.fst ∧
      ∀ side, ∃ last, Session.new.runAll depth verbosity (tagged side lines) =
        .ok (tagged side replies, last) := by
  obtain ⟨M, h⟩ := apart_newGlobals s
  exact h.runMixed

end Session

end MiniScheme
