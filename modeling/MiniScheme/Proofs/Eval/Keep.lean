import MiniScheme.Proofs.Eval.Discipline
import MiniScheme.Proofs.Eval.Tame
import Mathlib.Data.List.Basic

namespace MiniScheme

namespace Eval

open EvalM

/-- What is left of a call once the arguments are there. -/
def callBody (eval : Evaluator) (c : Closure) (received : List Value) : EvalM Value := do
  let inner ← update fun s ↦ s.openScope c.scope (c.parameters.zip received)
  record .trace fun s ↦ .enter (s.scopesText inner)
  lastValue eval c.body inner

theorem applyClosure_eq (eval : Evaluator) (c : Closure) (arguments : List Value)
    (scope : Address) :
    applyClosure eval c arguments scope = (do
      checkArity SpecialForm.lambda.name c.arity arguments.length .callArity
      let received ← values eval arguments scope
      callBody eval c received) :=
  rfl

end Eval

namespace Discipline

open EvalM Eval

variable {D : Discipline} {s t : Store} {v w : Value} {vs : List Value} {e : Address}

theorem allKnown_elementsWithin {k : Nat} (hd : D.Holds s) (hv : D.Known s v)
    (h : s.elementsWithin k v = some vs) : D.AllKnown s vs := by
  fun_induction Store.elementsWithin s k v generalizing vs with
  | case1 =>
    cases h
    exact allKnown_nil s
  | case2 | case3 => cases h
  | case4 k p ih =>
    obtain ⟨ws, hw, rfl⟩ := Option.map_eq_some_iff.1 h
    exact allKnown_cons.2 ⟨D.known_first hd hv, ih (D.known_second hd hv) hw⟩

theorem allKnown_elements? (hd : D.Holds s) (hv : D.Known s v) (h : s.elements? v = some vs) :
    D.AllKnown s vs :=
  allKnown_elementsWithin hd hv h

theorem known_follow {k : Nat} (hd : D.Holds s) (hv : D.Known s v)
    (h : s.follow k v = some w) : D.Known s w := by
  fun_induction Store.follow s k v with
  | case1 v =>
    cases h
    exact hv
  | case2 k p ih => exact ih (D.known_second hd hv) h
  | case3 => cases h

theorem known_listTail {k : Int64} (hd : D.Holds s) (hv : D.Known s v)
    (h : s.listTail v k = .ok w) : D.Known s w := by
  rw [Store.listTail] at h
  split at h
  · cases h
  · split at h
    · next hf =>
      cases h
      exact known_follow hd hv hf
    · cases h

theorem known_listRef {k : Int64} (hd : D.Holds s) (hv : D.Known s v)
    (h : s.listRef v k = .ok w) : D.Known s w := by
  rw [Store.listRef] at h
  split at h
  · next ht =>
    cases h
    exact D.known_first hd (known_listTail hd hv ht)
  · cases h
  · cases h

theorem ofList_known (hd : D.Holds s) (hvs : D.AllKnown s vs) (hw : D.Known s w) :
    D.Holds (s.ofList vs w).2 ∧ D.Known (s.ofList vs w).2 (s.ofList vs w).1 := by
  induction vs with
  | nil => exact ⟨hd, hw⟩
  | cons v vs ih =>
    obtain ⟨hv, hvs⟩ := allKnown_cons.1 hvs
    obtain ⟨hd', hr⟩ := ih hvs
    exact D.cons hd' (D.known_mono (Store.precedes_ofList s vs w) hv) hr

def KnownAtoms (D : Discipline) (s : Store) : Datum → Prop
  | .atom a => D.Known s (.atom a)
  | .cons first second => D.KnownAtoms s first ∧ D.KnownAtoms s second

theorem KnownAtoms.mono {d : Datum} (h : D.KnownAtoms s d) (hs : s.Precedes t) :
    D.KnownAtoms t d := by
  induction d with
  | atom a => exact D.known_mono hs h
  | cons d d' ih ih' => exact ⟨ih h.1, ih' h.2⟩

theorem load_known {d : Datum} (hd : D.Holds s) (h : D.KnownAtoms s d) :
    D.Holds (s.load d).2 ∧ D.Known (s.load d).2 (s.load d).1 := by
  induction d generalizing s with
  | atom a => exact ⟨hd, h⟩
  | cons d d' ih ih' =>
    obtain ⟨hd₁, hv⟩ := ih hd h.1
    obtain ⟨hd₂, hw⟩ := ih' hd₁ (h.2.mono (Store.precedes_load s d))
    exact D.cons hd₂ (D.known_mono (Store.precedes_load _ d') hv) hw

theorem runs_checkArity {name : String} {expected : Arity} {received : Nat}
    {err : ArityMismatch → Error} (hd : D.Holds s)
    (hn : name ∈ Builtin.all.map Builtin.name)
    (he : err = .formArity ∨ err = .callArity) :
    D.Runs s (checkArity name expected received err)
      fun _ _ ↦ expected.accepts received = true := by
  rw [checkArity]
  split
  · next h => exact runs_pure hd h
  · rcases he with rfl | rfl <;> exact runs_fail hd (D.plain hn)

section Evaluator

variable {eval : Evaluator} (hev : D.Evaluates eval)
include hev

theorem runs_values (hd : D.Holds s) (hvs : D.AllKnown s vs) (he : D.Visible s e) :
    D.Runs s (values eval vs e) fun t ws ↦ D.AllKnown t ws ∧ ws.length = vs.length := by
  induction vs generalizing s with
  | nil => exact runs_pure hd ⟨allKnown_nil s, rfl⟩
  | cons v vs ih =>
    obtain ⟨hv, hvs⟩ := allKnown_cons.1 hvs
    rw [values, List.mapM_cons]
    apply (hev hd hv he).bind
    intro t a hs hd ha
    refine (ih hd (hvs.mono hs) (D.visible_mono hs he)).bind fun u as hs hd ⟨has, hl⟩ ↦ ?_
    exact runs_pure hd ⟨allKnown_cons.2 ⟨D.known_mono hs ha, has⟩, congrArg (· + 1) hl⟩

theorem runs_lastValue (hd : D.Holds s) (hvs : D.AllKnown s vs) (he : D.Visible s e) :
    D.Runs s (lastValue eval vs e) D.Known := by
  fun_induction lastValue eval vs e generalizing s with
  | case1 => exact runs_pure hd (D.known_nil s)
  | case2 v => exact hev hd (allKnown_cons.1 hvs).1 he
  | case3 v vs hne ih =>
    obtain ⟨hv, hvs⟩ := allKnown_cons.1 hvs
    apply (hev hd hv he).bind
    intro t a hs hd ha
    exact ih hd (hvs.mono hs) (D.visible_mono hs he)

theorem runs_firstDeciding {decides : Value → Bool} (hd : D.Holds s) (hv : D.Known s v)
    (hvs : D.AllKnown s vs) (he : D.Visible s e) :
    D.Runs s (SpecialForm.firstDeciding eval decides e v vs) D.Known := by
  induction vs generalizing s v with
  | nil => exact runs_pure hd hv
  | cons w vs ih =>
    obtain ⟨hw, hvs⟩ := allKnown_cons.1 hvs
    rw [SpecialForm.firstDeciding]
    apply (hev hd hw he).bind
    intro t a hs hd ha
    split
    · exact runs_pure hd ha
    · exact ih hd ha (hvs.mono hs) (D.visible_mono hs he)

end Evaluator

theorem runs_tame {α : Type} {x : Except Error α} {Q : Store → α → Prop} (hd : D.Holds s)
    (hx : Tame x) (hq : ∀ a, x = .ok a → Q s a) : D.Runs s (ofExcept x) Q :=
  runs_ofExcept hd hq fun e he ↦ D.plain (hx e he)

theorem runs_tame_bind {α β : Type} {x : Except Error α} {f : α → EvalM β}
    {R : Store → β → Prop} (hd : D.Holds s) (hx : Tame x)
    (hf : ∀ a, x = .ok a → D.Runs s (f a) R) : D.Runs s (ofExcept x >>= f) R :=
  runs_ofExcept_bind hd (fun e he ↦ D.plain (hx e he)) hf

theorem runs_makeClosure {parameters body : List Value} (hd : D.Holds s)
    (hp : D.AllKnown s parameters) (hb : D.AllKnown s body) (he : D.Visible s e) :
    D.Runs s (SpecialForm.makeClosure parameters body e) D.Known := by
  rw [SpecialForm.makeClosure]
  apply runs_tame_bind hd (tame_mapM tame_parameterName parameters)
  intro names hm
  have hn : ∀ name ∈ names, D.Known s (.symbol name) := by
    intro name hmem
    obtain ⟨v, hv, hf⟩ := exists_of_mem_mapM hm hmem
    exact eq_symbol_of_parameterName hf ▸ hp v hv
  obtain ⟨hd', hk⟩ := D.newClosure (c := ⟨names, body, e⟩) hd hn hb he
  exact runs_update (Store.precedes_newClosure s _) hd' hk

theorem runs_bindName {name : String} (hd : D.Holds s) (hn : D.Known s (.symbol name))
    (hv : D.Known s v) (he : D.Visible s e) :
    D.Runs s (SpecialForm.bindName name v e) D.Known :=
  runs_record_bind hd <|
    runs_update (Store.precedes_bindHere s e name v) (D.define hd he hn hv) (D.known_nil _)

theorem runs_assignName {name : String} (hd : D.Holds s) (hn : D.Known s (.symbol name))
    (hv : D.Known s v) (he : D.Visible s e) :
    D.Runs s (SpecialForm.assignName name v e) D.Known := by
  cases ha : s.assign e name v with
  | some t =>
    have hs := Store.precedes_assign ha
    refine runs_of_eq_ok (fun _ ↦ []) hs (D.assign hd he hv ha) (D.known_nil t) fun _ ↦ ?_
    rw [SpecialForm.assignName, ha]
  | none =>
    have hl : s.lookup e name = none := by
      rw [Store.lookup_eq_holder, Option.map_eq_none_iff.1 ha, Option.bind_none]
    apply runs_of_eq_error hd (D.unbound hd he hn hl)
    intro _
    rw [SpecialForm.assignName, ha]

theorem runs_integersOf {xs : List Value} {f : List Int64 → EvalM Value} (hd : D.Holds s)
    (hf : ∀ ns, D.Runs s (f ns) D.Known) : D.Runs s (Procedure.integersOf xs >>= f) D.Known :=
  runs_tame_bind hd (tame_mapM tame_toInteger xs) fun ns _ ↦ hf ns

theorem runs_toPair {f : Address → EvalM Value} (hd : D.Holds s)
    (hf : ∀ p, v = .pair p → D.Runs s (f p) D.Known) :
    D.Runs s (ofExcept v.toPair >>= f) D.Known :=
  runs_tame_bind hd (tame_toPair v) fun p hp ↦ hf p (eq_pair_of_toPair hp)

theorem exists_of_exactly_one (hn : (Arity.exactly 1).accepts vs.length = true)
    (hvs : D.AllKnown s vs) : ∃ v, vs = [v] ∧ D.Known s v := by
  obtain ⟨v, rfl⟩ := List.length_eq_one_iff.1 (Arity.accepts_exactly.1 hn)
  exact ⟨v, rfl, (allKnown_cons.1 hvs).1⟩

theorem exists_of_exactly_two (hn : (Arity.exactly 2).accepts vs.length = true)
    (hvs : D.AllKnown s vs) : ∃ v w, vs = [v, w] ∧ D.Known s v ∧ D.Known s w := by
  obtain ⟨v, w, rfl⟩ := List.length_eq_two.1 (Arity.accepts_exactly.1 hn)
  obtain ⟨hv, hvs⟩ := allKnown_cons.1 hvs
  exact ⟨v, w, rfl, hv, (allKnown_cons.1 hvs).1⟩

theorem exists_of_atLeast {n : Nat} (hn : (Arity.atLeast (n + 1)).accepts vs.length = true)
    (hvs : D.AllKnown s vs) : ∃ v ws, vs = v :: ws ∧ D.Known s v ∧ D.AllKnown s ws := by
  have hl : n + 1 ≤ vs.length := of_decide_eq_true hn
  obtain ⟨v, ws, rfl⟩ := List.exists_cons_of_length_pos (Nat.lt_of_lt_of_le n.succ_pos hl)
  exact ⟨v, ws, rfl, allKnown_cons.1 hvs⟩

theorem runs_procedure {p : Procedure} {arguments : List Value} (hd : D.Holds s)
    (ha : D.AllKnown s arguments) (hn : p.arity.accepts arguments.length = true) :
    D.Runs s (p.run arguments) D.Known := by
  have hint (n : Int64) : D.Runs s (pure (.integer n)) D.Known := runs_pure hd (D.known_integer s n)
  cases p with
  | cons =>
    obtain ⟨v, w, rfl, hv, hw⟩ := exists_of_exactly_two hn ha
    obtain ⟨hd', hk⟩ := D.cons hd hv hw
    rw [Procedure.run]
    exact runs_update (Store.precedes_cons s v w) hd' hk
  | car =>
    obtain ⟨v, rfl, hv⟩ := exists_of_exactly_one hn ha
    apply runs_toPair hd
    intro p hp
    exact runs_inspect hd (D.known_first hd (hp ▸ hv))
  | cdr =>
    obtain ⟨v, rfl, hv⟩ := exists_of_exactly_one hn ha
    apply runs_toPair hd
    intro p hp
    exact runs_inspect hd (D.known_second hd (hp ▸ hv))
  | setCar =>
    obtain ⟨v, w, rfl, hv, hw⟩ := exists_of_exactly_two hn ha
    apply runs_toPair hd
    intro p hp
    have hd' := D.setFirst hd (hp ▸ hv) hw
    exact runs_update (Store.precedes_setFirst s p w) hd' (D.known_nil _)
  | setCdr =>
    obtain ⟨v, w, rfl, hv, hw⟩ := exists_of_exactly_two hn ha
    apply runs_toPair hd
    intro p hp
    have hd' := D.setSecond hd (hp ▸ hv) hw
    exact runs_update (Store.precedes_setSecond s p w) hd' (D.known_nil _)
  | list =>
    obtain ⟨hd', hk⟩ := ofList_known hd ha (D.known_nil s)
    exact runs_update (Store.precedes_ofList s arguments .nil) hd' hk
  | listTail =>
    obtain ⟨v, k, rfl, hv, -⟩ := exists_of_exactly_two hn ha
    refine runs_tame_bind hd (tame_toInteger k) fun n _ ↦ runs_inspect_bind hd ?_
    exact runs_tame hd (tame_listTail s v n) fun w hw ↦ known_listTail hd hv hw
  | listRef =>
    obtain ⟨v, k, rfl, hv, -⟩ := exists_of_exactly_two hn ha
    refine runs_tame_bind hd (tame_toInteger k) fun n _ ↦ runs_inspect_bind hd ?_
    exact runs_tame hd (tame_listRef s v n) fun w hw ↦ known_listRef hd hv hw
  | add | multiply => exact runs_integersOf hd fun ns ↦ hint _
  | subtract | least | greatest =>
    obtain ⟨first, others, rfl, -⟩ := exists_of_atLeast hn ha
    apply runs_tame_bind hd (tame_toInteger first)
    intro n _
    exact runs_integersOf hd fun ns ↦ hint _
  | divide =>
    obtain ⟨first, others, rfl, -⟩ := exists_of_atLeast hn ha
    refine runs_tame_bind hd (tame_toInteger first) fun n _ ↦ runs_integersOf hd fun ns ↦ ?_
    exact runs_tame_bind hd (tame_quotient n ns) fun q _ ↦ hint q
  | magnitude =>
    obtain ⟨v, rfl, -⟩ := exists_of_exactly_one hn ha
    exact runs_tame_bind hd (tame_toInteger v) fun n _ ↦ hint _
  | compare c => exact runs_integersOf hd fun ns ↦ runs_pure hd (D.known_boolean s _)
  | test q =>
    obtain ⟨v, rfl, -⟩ := exists_of_exactly_one hn ha
    exact runs_inspect hd (D.known_boolean s _)

theorem runs_argumentsOf {arguments : Value} {f : List Value → EvalM Value} (hd : D.Holds s)
    (hf : ∀ vs, s.elements? arguments = some vs → D.Runs s (f vs) D.Known) :
    D.Runs s (argumentsOf arguments >>= f) D.Known := by
  rw [argumentsOf, bind_assoc]
  refine runs_inspect_bind hd ?_
  split
  · next vs hvs =>
    rw [pure_bind]
    exact hf vs hvs
  · exact Runs.bind (runs_fail hd (D.plain trivial)) fun _ _ _ _ h ↦ False.elim h

theorem runs_fetch {name : String} (hd : D.Holds s) (hn : D.Known s (.symbol name))
    (he : D.Visible s e) : D.Runs s (fetch name e) D.Known := by
  refine runs_inspect_bind hd ?_
  split
  · next v hv => exact runs_pure hd (D.known_lookup hd he hv)
  · next hl => exact runs_fail hd (D.unbound hd he hn hl)

section Evaluator

variable {eval : Evaluator} (hev : D.Evaluates eval)
include hev

theorem runs_define {target : Value} {body : List Value} (hd : D.Holds s)
    (ht : D.Known s target) (hb : D.AllKnown s body) (he : D.Visible s e) :
    D.Runs s (SpecialForm.runDefine eval target body e) D.Known := by
  unfold SpecialForm.runDefine
  split
  · next name =>
    split
    · next expression =>
      apply (hev hd (allKnown_cons.1 hb).1 he).bind
      intro t v hs hd hv
      exact runs_bindName hd (D.known_mono hs ht) hv (D.visible_mono hs he)
    · exact runs_fail hd (D.plain (Builtin.name_mem (.form .define)))
  · refine runs_inspect_bind hd ?_
    split
    · next name parameters hel =>
      obtain ⟨hn, hp⟩ := allKnown_cons.1 (allKnown_elements? hd ht hel)
      apply (runs_makeClosure hd hp hb he).bind
      intro u v hs hd hv
      exact runs_bindName hd (D.known_mono hs hn) hv (D.visible_mono hs he)
    · exact runs_fail hd (D.plain trivial)
    · exact runs_fail hd (D.plain trivial)

theorem runs_conditional {condition consequent : Value} {otherwise : EvalM Value}
    (hd : D.Holds s) (hc : D.Known s condition) (hk : D.Known s consequent) (he : D.Visible s e)
    (ho : ∀ t, s.Precedes t → D.Holds t → D.Runs t otherwise D.Known) :
    D.Runs s (do if (← eval condition e).isTrue then eval consequent e else otherwise)
      D.Known := by
  apply (hev hd hc he).bind
  intro t v hs hd hv
  split
  · exact hev hd (D.known_mono hs hk) (D.visible_mono hs he)
  · exact ho t hs hd

theorem runs_form {form : SpecialForm} {arguments : List Value} (hd : D.Holds s)
    (ha : D.AllKnown s arguments) (he : D.Visible s e)
    (hn : form.arity.accepts arguments.length = true) :
    D.Runs s (form.run eval arguments e) D.Known := by
  cases form with
  | quote =>
    obtain ⟨datum, rfl, hv⟩ := exists_of_exactly_one hn ha
    exact runs_pure hd hv
  | conditional =>
    have hl : arguments.length = 2 ∨ arguments.length = 3 := by
      simp only [SpecialForm.arity, Arity.accepts, Bool.and_eq_true, decide_eq_true_eq] at hn
      omega
    rcases hl with hl | hl
    · obtain ⟨condition, consequent, rfl, hc, hk⟩ :=
        exists_of_exactly_two (Arity.accepts_exactly.2 hl) ha
      exact runs_conditional hev hd hc hk he fun t hs hd ↦ runs_pure hd (D.known_nil t)
    · obtain ⟨condition, consequent, alternative, rfl⟩ := List.length_eq_three.1 hl
      obtain ⟨hc, ha⟩ := allKnown_cons.1 ha
      obtain ⟨hk, ha⟩ := allKnown_cons.1 ha
      apply runs_conditional hev hd hc hk he
      intro t hs hd
      exact hev hd (D.known_mono hs (allKnown_cons.1 ha).1) (D.visible_mono hs he)
  | define =>
    obtain ⟨target, body, rfl, ht, hb⟩ := exists_of_atLeast hn ha
    exact runs_define hev hd ht hb he
  | assign =>
    obtain ⟨target, expression, rfl, ht, hx⟩ := exists_of_exactly_two hn ha
    rcases target with (_ | _ | name | _ | _) | _
    case atom.symbol =>
      apply (hev hd hx he).bind
      intro t v hs hd hv
      exact runs_assignName hd (D.known_mono hs ht) hv (D.visible_mono hs he)
    all_goals exact runs_fail hd (D.plain trivial)
  | lambda =>
    obtain ⟨parameters, body, rfl, hp, hb⟩ := exists_of_atLeast hn ha
    refine runs_inspect_bind hd ?_
    split
    · next elements hel => exact runs_makeClosure hd (allKnown_elements? hd hp hel) hb he
    · exact runs_fail hd (D.plain trivial)
  | conjunction => exact runs_firstDeciding hev hd (D.known_boolean s true) ha he
  | disjunction => exact runs_firstDeciding hev hd (D.known_boolean s false) ha he

theorem runs_applyBuiltin {b : Builtin} {arguments : List Value} (hd : D.Holds s)
    (ha : D.AllKnown s arguments) (he : D.Visible s e) :
    D.Runs s (applyBuiltin eval b arguments e) D.Known := by
  cases b with
  | form f =>
    apply (runs_checkArity hd (Builtin.name_mem (.form f)) (.inl rfl)).bind
    intro t _ hs hd hn
    refine runs_record_bind hd ?_
    exact (runs_form hev hd (ha.mono hs) (D.visible_mono hs he) hn).reporting
  | procedure p =>
    apply (runs_checkArity hd (Builtin.name_mem (.procedure p)) (.inr rfl)).bind
    intro t _ hs hd hn
    refine (runs_values hev hd (ha.mono hs) (D.visible_mono hs he)).bind ?_
    intro u vs hs hd h
    obtain ⟨hvs, hl⟩ := h
    exact runs_record_bind hd (runs_procedure hd hvs (hl ▸ hn)).reporting

theorem runs_callBody {c : Closure} {received : List Value} (hd : D.Holds s) (hc : D.Ready s c)
    (hr : D.AllKnown s received) : D.Runs s (callBody eval c received) D.Known := by
  obtain ⟨hd', hi⟩ := D.openScope hd hc hr
  have hs := Store.precedes_openScope s c.scope (c.parameters.zip received)
  have ho : D.Runs s (update fun s ↦ s.openScope c.scope (c.parameters.zip received))
      fun t inner ↦ D.Ready t c ∧ D.Visible t inner :=
    runs_update hs hd' ⟨D.ready_mono hs hc, hi⟩
  refine ho.bind ?_
  intro t inner _ hd h
  obtain ⟨hc, hi⟩ := h
  exact runs_record_bind hd (runs_lastValue hev hd (fun v hv ↦ D.ready_body hd hc hv) hi)

theorem runs_applyClosure {c : Closure} {arguments : List Value} (hd : D.Holds s)
    (hc : D.Ready s c) (ha : D.AllKnown s arguments) (he : D.Visible s e) :
    D.Runs s (applyClosure eval c arguments e) D.Known := by
  rw [applyClosure_eq]
  apply (runs_checkArity hd (Builtin.name_mem (.form .lambda)) (.inr rfl)).bind
  intro t _ hs hd _
  have hc := D.ready_mono hs hc
  refine (runs_values hev hd (ha.mono hs) (D.visible_mono hs he)).bind ?_
  intro u vs hs hd h
  exact runs_callBody hev hd (D.ready_mono hs hc) h.1

theorem runs_apply {callee arguments : Value} (hd : D.Holds s) (hc : D.Known s callee)
    (ha : D.Known s arguments) (he : D.Visible s e) :
    D.Runs s (apply eval callee arguments e) D.Known := by
  rcases callee with (_ | _ | _ | b | c) | p
  case atom.builtin =>
    apply runs_argumentsOf hd
    intro vs hvs
    exact runs_applyBuiltin hev hd (allKnown_elements? hd ha hvs) he
  case atom.closure =>
    refine runs_inspect_bind hd (runs_argumentsOf hd fun vs hvs ↦ ?_)
    exact runs_applyClosure hev hd (D.known_ready hd hc) (allKnown_elements? hd ha hvs) he
  all_goals exact runs_inspect_bind hd (runs_fail hd (D.shown hd hc).1)

theorem evaluates_step : D.Evaluates (step eval) := by
  intro s x e hd hx he
  refine runs_record_bind hd ?_
  rcases x with (_ | n | name | b | c) | p
  case atom.nil => exact runs_fail hd (D.plain trivial)
  case atom.integer => exact runs_pure hd hx
  case atom.symbol =>
    dsimp only
    split
    · exact runs_pure hd hx
    · exact runs_fetch hd hx he
  case atom.builtin | atom.closure =>
    exact runs_inspect_bind hd (runs_fail hd (D.shown hd hx).2)
  case pair =>
    refine runs_inspect_bind hd ?_
    refine (hev hd (D.known_first hd hx) he).bind fun t v hs hd hv ↦ runs_inspect_bind hd ?_
    exact runs_apply hev hd hv (D.known_second hd (D.known_mono hs hx)) (D.visible_mono hs he)

end Evaluator

theorem evaluates_eval (depth : Nat) : D.Evaluates (eval depth) := by
  induction depth with
  | zero => exact fun _ _ _ ↦ runs_depthExceeded _
  | succ depth ih => exact evaluates_step ih

/-- A text is evaluated in line with the discipline if the atoms in it are known. -/
theorem runs_evalText {depth : Nat} {text : String} (hd : D.Holds s)
    (ha : ∀ d, Datum.ofText text = .ok d → D.KnownAtoms s d) (he : D.Visible s e) :
    D.Runs s (evalText depth text e) D.Known := by
  have herror (e : Error) (he : (Datum.ofText text).mapError Error.reading = .error e) :
      D.Allowed e := by
    cases ho : Datum.ofText text <;> rw [ho] at he <;> cases he
    exact D.unread ho
  apply runs_ofExcept_bind hd herror
  intro d hok
  have hdatum : Datum.ofText text = .ok d := by
    cases ho : Datum.ofText text <;> rw [ho] at hok <;> cases hok
    rfl
  obtain ⟨hd', hk⟩ := load_known hd (ha d hdatum)
  have hs := Store.precedes_load s d
  have hu : D.Runs s (update fun s ↦ s.load d) fun t v ↦ D.Known t v ∧ D.Visible t e :=
    runs_update hs hd' ⟨hk, D.visible_mono hs he⟩
  refine hu.bind ?_
  intro t v _ hd h
  obtain ⟨hv, he⟩ := h
  exact runs_record_bind hd (evaluates_eval depth hd hv he)

theorem runs_answerText {depth : Nat} {text : String} (hd : D.Holds s)
    (ha : ∀ d, Datum.ofText text = .ok d → D.KnownAtoms s d) (he : D.Visible s e) :
    D.Runs s (answerText depth text e) fun t answer ↦ ∃ v, D.Known t v ∧ answer = t.text v :=
  (runs_evalText hd ha he).bind fun _ v _ hd hv ↦ runs_inspect hd ⟨v, hv, rfl⟩

end Discipline

end MiniScheme
