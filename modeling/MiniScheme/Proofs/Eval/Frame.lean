import MiniScheme.Proofs.Eval.Keep
import MiniScheme.Proofs.Store.Frame
import MiniScheme.Session.Basic
import Mathlib

namespace MiniScheme

open Store

/-- An evaluation that knows only nodes of a kind meets no others but new ones, and changes no
others. -/
def Discipline.framing (s : Store) (A : Node → Prop) : Discipline where
  Holds t := s.TouchesOnly A t
  Visible t e := OrNew A s t (.scope e)
  Known t v := Within (OrNew A s t) v
  Ready t c := OrNew A s t (.scope c.scope) ∧ ∀ v ∈ c.body, Within (OrNew A s t) v
  Allowed _ := True
  visible_mono hs he := he.mono hs
  known_mono hs hv := hv.mono fun _ hn ↦ hn.mono hs
  ready_mono hs hc := ⟨hc.1.mono hs, fun v hv ↦ (hc.2 v hv).mono fun _ hn ↦ hn.mono hs⟩
  known_nil _ _ hn := by cases hn
  known_integer _ _ _ hn := by cases hn
  known_boolean _ _ _ hn := by cases hn
  known_first hd hp := hd.closed.first hp
  known_second hd hp := hd.closed.second hp
  known_ready {t c} hd hc :=
    ⟨hd.closed _ _ (hc _ rfl) (captured_mem_successors t c),
      fun _ hv _ hn ↦ hd.closed _ _ (hc _ rfl) (body_mem_successors hv hn)⟩
  ready_body _ hc hv := hc.2 _ hv
  known_lookup hd he hl := hd.closed.lookup he hl
  cons hd hv hw := ⟨hd.cons hv hw, hd.within_cons _ _⟩
  setFirst hd hp hv := hd.setFirst (hp _ rfl) hv
  setSecond hd hp hv := hd.setSecond (hp _ rfl) hv
  newClosure hd _ hb he := ⟨hd.newClosure hb he, hd.within_newClosure _⟩
  openScope hd hc hvs :=
    ⟨hd.openScope hc.1 fun b hb ↦ hvs b.2 (List.of_mem_zip hb).2, hd.orNew_openScope _ _⟩
  define hd he _ hv := hd.bindHere he hv _
  assign hd he hv ha := hd.assign he hv ha
  unbound _ _ _ _ := trivial
  shown _ _ := ⟨trivial, trivial⟩
  unread _ := trivial
  plain _ := trivial

namespace Eval

/-- What an evaluation is given: its scope, and the expression if that is a node. -/
def rootsOf (x : Value) (e : Address) : List Node := .scope e :: x.node?.toList

def resultRoots : Except Error Value → List Node
  | .ok v => v.node?.toList
  | .error _ => []

variable {depth : Nat} {verbosity : Verbosity} {s : Store} {x : Value} {e : Address}
  {run : Run Value} {A : Node → Prop}

theorem mem_resultRoots {result : Except Error Value} {n : Node} :
    n ∈ resultRoots result ↔ ∃ v, result = .ok v ∧ v.node? = some n := by
  cases result <;> simp [resultRoots]

theorem ends_framing (hc : s.ClosedUnder A) (hr : ∀ n ∈ rootsOf x e, A n)
    (h : eval depth x e verbosity s = .ok run) :
    (Discipline.framing s A).Ends s (Discipline.framing s A).Known run := by
  have hx : (Discipline.framing s A).Known s x := fun n hn ↦
    .inl (hr n (List.mem_cons_of_mem _ (by simp [hn])))
  have he : (Discipline.framing s A).Visible s e := .inl (hr _ List.mem_cons_self)
  exact ((Discipline.evaluates_eval depth (touchesOnly_refl hc) hx he) verbosity).2 run h

/-- An evaluation changes only what it can reach from its expression and its scope, and nothing else
from before comes within reach of them or of its result. -/
theorem eval_touches_reachable (h : eval depth x e verbosity s = .ok run) :
    (∀ p < s.pairs.size, ¬ s.Reaches (rootsOf x e) (.pair p) → run.store.pair p = s.pair p) ∧
    (∀ d < s.scopes.size, ¬ s.Reaches (rootsOf x e) (.scope d) →
      run.store.scope d = s.scope d) ∧
    ∀ n, run.store.Reaches (rootsOf x e ++ resultRoots run.result) n →
      s.Reaches (rootsOf x e) n ∨ ¬ s.Contains n ∧ run.store.Contains n := by
  have hends := ends_framing (s.closedUnder_reaches _) (fun _ hn ↦ reaches_of_mem hn) h
  refine ⟨fun _ ↦ hends.holds.pair_eq, fun _ ↦ hends.holds.scope_eq, fun n hn ↦ ?_⟩
  refine hn.of_closedUnder hends.holds.closed fun root hroot ↦ ?_
  rcases List.mem_append.1 hroot with hgiven | hresult
  · exact .inl (reaches_of_mem hgiven)
  · obtain ⟨v, hv, hn⟩ := mem_resultRoots.1 hresult
    exact hends.result v hv root hn

/-- Two scopes with a pair each, and the expression `(f x 7)`, where `f` is `set-car!` in
scope 0. -/
def callOfSetter : Value × Store :=
  Store.load
    ⟨#[⟨.integer 1, .integer 2⟩, ⟨.integer 3, .integer 4⟩], #[],
      #[⟨[("f", .builtin (.procedure .setCar)), ("x", .pair 0)], []⟩, ⟨[("x", .pair 1)], []⟩]⟩
    (.ofList [.symbol "f", .symbol "x", .integer 7] .nil)

theorem not_reaches_other_scope {n : Node} (hn : n = .pair 1 ∨ n = .scope 1) :
    ¬ callOfSetter.2.Reaches (rootsOf callOfSetter.1 0) n := by
  have hc : callOfSetter.2.ClosedUnder fun m ↦ ¬ (m = .pair 1 ∨ m = .scope 1) :=
    closedUnder_of_forall_lt (by decide) (by decide) (by decide) (by decide)
  exact fun h ↦ h.of_closedUnder hc (by decide) hn

/-- The pair of one scope gets a new slot, that of the other scope stays as it is. -/
theorem eval_touches_reachable_setter :
    ∃ run, eval 9 callOfSetter.1 0 .silent callOfSetter.2 = .ok run ∧
      run.store.pair 0 = ⟨.integer 7, .integer 2⟩ ∧ run.store.pair 1 = ⟨.integer 3, .integer 4⟩ ∧
      run.store.scope 1 = ⟨[("x", .pair 1)], []⟩ := by
  have hcall : (eval 9 callOfSetter.1 0 .silent callOfSetter.2).map (fun run ↦ run.store.pair 0) =
      .ok ⟨.integer 7, .integer 2⟩ := by
    cbv
  obtain ⟨run, hr, hp⟩ := exists_of_map_eq_ok hcall
  obtain ⟨hpairs, hscopes, -⟩ := eval_touches_reachable hr
  refine ⟨run, hr, hp, ?_, ?_⟩
  · exact hpairs 1 (by decide) (not_reaches_other_scope (.inl rfl))
  · exact hscopes 1 (by decide) (not_reaches_other_scope (.inr rfl))

end Eval

end MiniScheme
