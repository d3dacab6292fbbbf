import MiniScheme.Eval.Basic
import MiniScheme.Proofs.Eval.Keep
import MiniScheme.Proofs.Eval.Simulate
import Mathlib.Data.List.Forall2

namespace MiniScheme

variable {M : Correspondence} {s t : Store} {v w v' w' : Value} {vs ws : List Value}
  {d e : Address}

namespace Value.Matches

variable (h : v.Matches M w)
include h

theorem toInteger_eq : v.toInteger = w.toInteger := by cases h <;> rfl

theorem parameterName_eq : SpecialForm.parameterName v = SpecialForm.parameterName w := by
  cases h <;> rfl

theorem toPair : Agrees (fun p q ↦ M (.pair p) (.pair q)) v.toPair w.toPair := by
  cases h with
  | pair hpq => exact .ok hpq
  | closure _ => exact .error _
  | atom a _ => exact .error _

end Value.Matches

/-- Lists are gone through alike by what does not tell their elements apart. -/
theorem mapM_eq_of_forall₂ {α β γ : Type} {R : α → β → Prop} {f : α → Except Error γ}
    {g : β → Except Error γ} {as : List α} {bs : List β} (h : List.Forall₂ R as bs)
    (hfg : ∀ a b, R a b → f a = g b) : as.mapM f = bs.mapM g := by
  induction h with
  | nil => rfl
  | cons hab _ ih => rw [mapM_cons_eq, mapM_cons_eq, hfg _ _ hab, ih]

namespace Store.Mirrors

variable (h : Mirrors M s t)
include h

theorem holds_eq (q : Predicate) (hvw : v.Matches M w) : q.holds s v = q.holds t w := by
  cases q with
  | isList => exact h.isList_eq hvw
  | isBoolean => exact hvw.isBoolean_eq
  | isFalse => exact hvw.isFalse_eq
  | isPair | isNull | isNumber | isSymbol => cases hvw <;> rfl

theorem listTail (hvw : v.Matches M w) (k : Int64) :
    Agrees (Value.Matches M) (s.listTail v k) (t.listTail w k) := by
  rw [Store.listTail, Store.listTail]
  split
  · exact .error _
  · have hf := h.follow hvw k.toInt.toNat
    generalize s.follow k.toInt.toNat v = a, t.follow k.toInt.toNat w = b at hf
    cases hf with
    | none => exact .error _
    | some hvw => exact .ok hvw

theorem listRef (hvw : v.Matches M w) (k : Int64) :
    Agrees (Value.Matches M) (s.listRef v k) (t.listRef w k) := by
  have ht := h.listTail hvw k
  rw [Store.listRef, Store.listRef]
  generalize s.listTail v k = a, t.listTail w k = b at ht
  cases ht with
  | error e => exact .error e
  | ok hvw =>
    cases hvw with
    | atom a _ => exact .error _
    | closure _ => exact .error _
    | pair hpq => exact .ok (h.first hpq)

end Store.Mirrors

open Store EvalM Eval

/-- What a definition does that names something other than a symbol. -/
def defineProcedure (target : Value) (body : List Value) (scope : Address) : EvalM Value := do
  match ← inspect fun s ↦ s.elements? target with
  | some (.symbol name :: parameters) =>
    SpecialForm.bindName name (← SpecialForm.makeClosure parameters body scope) scope
  | some (_ :: _) => fail .definedNameNotASymbol
  | _ => fail .badDefineTarget

theorem runDefine_of_ne {eval : Evaluator} {body : List Value} (hv : ∀ name, v ≠ .symbol name) :
    SpecialForm.runDefine eval v body d = defineProcedure v body d := by
  unfold SpecialForm.runDefine
  split
  · next name => exact absurd rfl (hv name)
  · rfl

/-- Evaluating expressions that match in scopes that correspond leads to the same. -/
def Evaluator.Respects (eval : Evaluator) : Prop :=
  ∀ {M s t v w d e}, Mirrors M s t → v.Matches M w → M (.scope d) (.scope e) →
    Simulates M s t (eval v d) (eval w e) Value.Matches

section Lengths

theorem exists_of_forall₂_one (hn : (Arity.exactly 1).accepts vs.length = true)
    (hvs : List.Forall₂ (Value.Matches M) vs ws) :
    ∃ v w, vs = [v] ∧ ws = [w] ∧ v.Matches M w := by
  obtain ⟨v, rfl⟩ := List.length_eq_one_iff.1 (Arity.accepts_exactly.1 hn)
  cases hvs with
  | cons hvw hrest =>
    cases hrest
    exact ⟨_, _, rfl, rfl, hvw⟩

theorem exists_of_forall₂_two (hn : (Arity.exactly 2).accepts vs.length = true)
    (hvs : List.Forall₂ (Value.Matches M) vs ws) :
    ∃ v v' w w', vs = [v, v'] ∧ ws = [w, w'] ∧ v.Matches M w ∧ v'.Matches M w' := by
  obtain ⟨v, v', rfl⟩ := List.length_eq_two.1 (Arity.accepts_exactly.1 hn)
  cases hvs with
  | cons hvw hrest =>
    cases hrest with
    | cons hvw' hrest =>
      cases hrest
      exact ⟨_, _, _, _, rfl, rfl, hvw, hvw'⟩

theorem exists_of_forall₂_atLeast {n : Nat} (hn : (Arity.atLeast (n + 1)).accepts vs.length = true)
    (hvs : List.Forall₂ (Value.Matches M) vs ws) :
    ∃ v vs' w ws', vs = v :: vs' ∧ ws = w :: ws' ∧ v.Matches M w ∧
      List.Forall₂ (Value.Matches M) vs' ws' := by
  have hl : n + 1 ≤ vs.length := of_decide_eq_true hn
  obtain ⟨v, vs', rfl⟩ := List.exists_cons_of_length_pos (Nat.lt_of_lt_of_le n.succ_pos hl)
  cases hvs with
  | cons hvw hrest => exact ⟨_, _, _, _, rfl, rfl, hvw, hrest⟩

end Lengths

section Procedures

variable {γ δ : Type} {R : Correspondence → γ → δ → Prop}

theorem simulates_toPair {f : Address → EvalM γ} {f' : Address → EvalM δ} (h : Mirrors M s t)
    (hvw : v.Matches M w)
    (hf : ∀ p q, M (.pair p) (.pair q) → Simulates M s t (f p) (f' q) R) :
    Simulates M s t (ofExcept v.toPair >>= f) (ofExcept w.toPair >>= f') R :=
  simulates_ofExcept_bind h hvw.toPair hf

theorem simulates_toInteger {f : Int64 → EvalM γ} {f' : Int64 → EvalM δ} (h : Mirrors M s t)
    (hvw : v.Matches M w) (hf : ∀ n, Simulates M s t (f n) (f' n) R) :
    Simulates M s t (ofExcept v.toInteger >>= f) (ofExcept w.toInteger >>= f') R := by
  rw [hvw.toInteger_eq]
  exact simulates_same_bind h hf

theorem simulates_integersOf {f : List Int64 → EvalM γ} {f' : List Int64 → EvalM δ}
    (h : Mirrors M s t) (hvs : List.Forall₂ (Value.Matches M) vs ws)
    (hf : ∀ ns, Simulates M s t (f ns) (f' ns) R) :
    Simulates M s t (Procedure.integersOf vs >>= f) (Procedure.integersOf ws >>= f') R := by
  rw [Procedure.integersOf, Procedure.integersOf,
    mapM_eq_of_forall₂ hvs fun _ _ hvw ↦ hvw.toInteger_eq]
  exact simulates_same_bind h hf

theorem simulates_procedure {p : Procedure} (h : Mirrors M s t)
    (hvs : List.Forall₂ (Value.Matches M) vs ws) (hn : p.arity.accepts vs.length = true) :
    Simulates M s t (p.run vs) (p.run ws) Value.Matches := by
  have hint (n : Int64) : Simulates M s t (pure (.integer n)) (pure (.integer n)) Value.Matches :=
    simulates_pure h (.integer n)
  cases p with
  | cons =>
    obtain ⟨_, _, _, _, rfl, rfl, hvw, hvw'⟩ := exists_of_forall₂_two hn hvs
    rw [Procedure.run, Procedure.run]
    exact simulates_update (h.cons hvw hvw')
  | car =>
    obtain ⟨_, _, rfl, rfl, hvw⟩ := exists_of_forall₂_one hn hvs
    exact simulates_toPair h hvw fun p q hpq ↦ simulates_inspect h (h.first hpq)
  | cdr =>
    obtain ⟨_, _, rfl, rfl, hvw⟩ := exists_of_forall₂_one hn hvs
    exact simulates_toPair h hvw fun p q hpq ↦ simulates_inspect h (h.second hpq)
  | setCar =>
    obtain ⟨_, _, _, _, rfl, rfl, hvw, hvw'⟩ := exists_of_forall₂_two hn hvs
    exact simulates_toPair h hvw fun p q hpq ↦
      simulates_update ⟨M, h.setFirst hpq hvw', .nil⟩
  | setCdr =>
    obtain ⟨_, _, _, _, rfl, rfl, hvw, hvw'⟩ := exists_of_forall₂_two hn hvs
    exact simulates_toPair h hvw fun p q hpq ↦
      simulates_update ⟨M, h.setSecond hpq hvw', .nil⟩
  | list => exact simulates_update (h.ofList hvs .nil)
  | listTail =>
    obtain ⟨_, _, _, _, rfl, rfl, hvw, hkl⟩ := exists_of_forall₂_two hn hvs
    exact simulates_toInteger h hkl fun n ↦ simulates_inspect_bind <|
      simulates_ofExcept h (h.listTail hvw n)
  | listRef =>
    obtain ⟨_, _, _, _, rfl, rfl, hvw, hkl⟩ := exists_of_forall₂_two hn hvs
    exact simulates_toInteger h hkl fun n ↦ simulates_inspect_bind <|
      simulates_ofExcept h (h.listRef hvw n)
  | add | multiply => exact simulates_integersOf h hvs fun ns ↦ hint _
  | subtract | least | greatest =>
    obtain ⟨_, _, _, _, rfl, rfl, hvw, hrest⟩ := exists_of_forall₂_atLeast hn hvs
    exact simulates_toInteger h hvw fun n ↦ simulates_integersOf h hrest fun ns ↦ hint _
  | divide =>
    obtain ⟨_, _, _, _, rfl, rfl, hvw, hrest⟩ := exists_of_forall₂_atLeast hn hvs
    exact simulates_toInteger h hvw fun n ↦ simulates_integersOf h hrest fun ns ↦
      simulates_same_bind h hint
  | magnitude =>
    obtain ⟨_, _, rfl, rfl, hvw⟩ := exists_of_forall₂_one hn hvs
    exact simulates_toInteger h hvw fun n ↦ hint _
  | compare c => exact simulates_integersOf h hvs fun ns ↦ simulates_pure h (.boolean _)
  | test q =>
    obtain ⟨_, _, rfl, rfl, hvw⟩ := exists_of_forall₂_one hn hvs
    apply simulates_inspect h
    rw [h.holds_eq q hvw]
    exact .boolean _

end Procedures

section Parts

theorem simulates_checkArity (h : Mirrors M s t) (name : String) (expected : Arity)
    (received : Nat) (err : ArityMismatch → Error) :
    Simulates M s t (checkArity name expected received err) (checkArity name expected received err)
      fun _ _ _ ↦ expected.accepts received = true := by
  rw [checkArity]
  split
  · next ha => exact simulates_pure h ha
  · exact simulates_fail h _

theorem simulates_makeClosure {parameters parameters' body body' : List Value}
    (h : Mirrors M s t) (hp : List.Forall₂ (Value.Matches M) parameters parameters')
    (hb : List.Forall₂ (Value.Matches M) body body') (hde : M (.scope d) (.scope e)) :
    Simulates M s t (SpecialForm.makeClosure parameters body d)
      (SpecialForm.makeClosure parameters' body' e) Value.Matches := by
  rw [SpecialForm.makeClosure, SpecialForm.makeClosure,
    mapM_eq_of_forall₂ hp fun _ _ hvw ↦ hvw.parameterName_eq]
  exact simulates_same_bind h fun names ↦ simulates_update (h.newClosure ⟨rfl, hb, hde⟩)

theorem simulates_bindName (h : Mirrors M s t) (name : String) (hvw : v.Matches M w)
    (hde : M (.scope d) (.scope e)) :
    Simulates M s t (SpecialForm.bindName name v d) (SpecialForm.bindName name w e)
      Value.Matches := by
  apply simulates_record_bind
  · rw [h.text_eq hvw]
  · exact simulates_update ⟨M, h.bindHere hde hvw name, .nil⟩

theorem simulates_assignName (h : Mirrors M s t) (name : String) (hvw : v.Matches M w)
    (hde : M (.scope d) (.scope e)) :
    Simulates M s t (SpecialForm.assignName name v d) (SpecialForm.assignName name w e)
      Value.Matches := by
  intro verbosity
  have ha := h.assign hde hvw name
  rw [SpecialForm.assignName, SpecialForm.assignName]
  generalize s.assign d name v = a, t.assign e name w = b at ha
  cases ha with
  | none => exact .ok ⟨rfl, M, h.advances, .error _⟩
  | some hM => exact .ok ⟨rfl, M, hM, .ok .nil⟩

theorem simulates_defineProcedure {body body' : List Value} (h : Mirrors M s t)
    (hvw : v.Matches M w) (hb : List.Forall₂ (Value.Matches M) body body')
    (hde : M (.scope d) (.scope e)) :
    Simulates M s t (defineProcedure v body d) (defineProcedure w body' e) Value.Matches := by
  apply simulates_inspect_bind
  have he := h.elements? hvw
  generalize s.elements? v = a, t.elements? w = b at he
  rcases he with ⟨⟨⟩ | ⟨hname, hparameters⟩⟩ | ⟨⟩
  · exact simulates_fail h _
  · cases hname with
    | pair _ => exact simulates_fail h _
    | closure _ => exact simulates_fail h _
    | atom a _ =>
      cases a with
      | symbol name =>
        exact (simulates_makeClosure h hparameters hb hde).bind fun hN hvalue ↦
          simulates_bindName hN.mirrors name hvalue (hN.le _ _ hde)
      | _ => exact simulates_fail h _
  · exact simulates_fail h _

theorem simulates_lambda {eval : Evaluator} {body body' : List Value} (h : Mirrors M s t)
    (hvw : v.Matches M w) (hb : List.Forall₂ (Value.Matches M) body body')
    (hde : M (.scope d) (.scope e)) :
    Simulates M s t (SpecialForm.lambda.run eval (v :: body) d)
      (SpecialForm.lambda.run eval (w :: body') e) Value.Matches := by
  apply simulates_inspect_bind
  have he := h.elements? hvw
  generalize s.elements? v = a, t.elements? w = b at he
  cases he with
  | none => exact simulates_fail h _
  | some hparameters => exact simulates_makeClosure h hparameters hb hde

theorem simulates_argumentsOf (h : Mirrors M s t) (hvw : v.Matches M w) :
    Simulates M s t (argumentsOf v) (argumentsOf w)
      fun N vs ws ↦ List.Forall₂ (Value.Matches N) vs ws := by
  apply simulates_inspect_bind
  have he := h.elements? hvw
  generalize s.elements? v = a, t.elements? w = b at he
  cases he with
  | none => exact simulates_fail h _
  | some hvs => exact simulates_pure h hvs

theorem simulates_fetch (h : Mirrors M s t) (name : String) (hde : M (.scope d) (.scope e)) :
    Simulates M s t (fetch name d) (fetch name e) Value.Matches := by
  apply simulates_inspect_bind
  have hl := h.lookup hde name
  generalize s.lookup d name = a, t.lookup e name = b at hl
  cases hl with
  | none => exact simulates_fail h _
  | some hvw => exact simulates_pure h hvw

theorem simulates_failText (h : Mirrors M s t) (hvw : v.Matches M w) (err : String → Error) :
    Simulates M s t (do fail (err (← inspect fun s ↦ s.text v)))
      (do fail (err (← inspect fun s ↦ s.text w))) Value.Matches := by
  apply simulates_inspect_bind
  rw [h.text_eq hvw]
  exact simulates_fail h _

end Parts

section Evaluator

variable {eval : Evaluator} (hev : eval.Respects)
include hev

theorem simulates_values (h : Mirrors M s t) (hvs : List.Forall₂ (Value.Matches M) vs ws)
    (hde : M (.scope d) (.scope e)) :
    Simulates M s t (values eval vs d) (values eval ws e)
      fun N vs' ws' ↦ List.Forall₂ (Value.Matches N) vs' ws' ∧ vs'.length = vs.length := by
  induction vs generalizing M s t ws with
  | nil =>
    cases hvs
    exact simulates_pure h ⟨.nil, rfl⟩
  | cons v vs ih =>
    cases hvs with
    | cons hvw hrest =>
      rw [values, values, List.mapM_cons, List.mapM_cons]
      refine (hev h hvw hde).bind fun {N _ _ _ _} hN hfirst ↦ ?_
      refine (ih hN.mirrors (matches_all_mono hN.le hrest) (hN.le _ _ hde)).bind
        fun {L _ _ _ _} hL hvs ↦ ?_
      exact simulates_pure hL.mirrors ⟨.cons (hfirst.mono hL.le) hvs.1, congrArg (· + 1) hvs.2⟩

theorem simulates_lastValue (h : Mirrors M s t) (hvs : List.Forall₂ (Value.Matches M) vs ws)
    (hde : M (.scope d) (.scope e)) :
    Simulates M s t (lastValue eval vs d) (lastValue eval ws e) Value.Matches := by
  induction vs generalizing M s t ws with
  | nil =>
    cases hvs
    exact simulates_pure h .nil
  | cons v vs ih =>
    cases hvs with
    | cons hvw hrest =>
      cases hrest with
      | nil => exact hev h hvw hde
      | cons hvw' hrest =>
        refine (hev h hvw hde).bind fun {N _ _ _ _} hN _ ↦ ?_
        have hall := matches_all_mono hN.le (.cons hvw' hrest)
        exact ih hN.mirrors hall (hN.le _ _ hde)

theorem simulates_firstDeciding {decides : Value → Bool}
    (hd : ∀ {N v w}, Value.Matches N v w → decides v = decides w) (h : Mirrors M s t)
    (hvw : v.Matches M w) (hvs : List.Forall₂ (Value.Matches M) vs ws)
    (hde : M (.scope d) (.scope e)) :
    Simulates M s t (SpecialForm.firstDeciding eval decides d v vs)
      (SpecialForm.firstDeciding eval decides e w ws) Value.Matches := by
  induction vs generalizing M s t v w ws with
  | nil =>
    cases hvs
    exact simulates_pure h hvw
  | cons x vs ih =>
    cases hvs with
    | cons hxy hrest =>
      rw [SpecialForm.firstDeciding, SpecialForm.firstDeciding]
      refine (hev h hxy hde).bind fun {N _ _ _ _} hN hfirst ↦ ?_
      rw [hd hfirst]
      split
      · exact simulates_pure hN.mirrors hfirst
      · exact ih hN.mirrors hfirst (matches_all_mono hN.le hrest) (hN.le _ _ hde)

theorem simulates_conditional {m m' : EvalM Value} (h : Mirrors M s t) (hc : v.Matches M w)
    (hk : v'.Matches M w') (hde : M (.scope d) (.scope e))
    (hm : ∀ {N s' t'}, Advances M s t N s' t' → Simulates N s' t' m m' Value.Matches) :
    Simulates M s t (do if (← eval v d).isTrue then eval v' d else m)
      (do if (← eval w e).isTrue then eval w' e else m') Value.Matches := by
  refine (hev h hc hde).bind fun {N _ _ _ _} hN hvalue ↦ ?_
  rw [hvalue.isTrue_eq]
  split
  · exact hev hN.mirrors (hk.mono hN.le) (hN.le _ _ hde)
  · exact hm hN

theorem simulates_define {body body' : List Value} (h : Mirrors M s t) (hvw : v.Matches M w)
    (hb : List.Forall₂ (Value.Matches M) body body') (hde : M (.scope d) (.scope e)) :
    Simulates M s t (SpecialForm.runDefine eval v body d) (SpecialForm.runDefine eval w body' e)
      Value.Matches := by
  by_cases hv : ∃ name, v = .symbol name
  · obtain ⟨name, rfl⟩ := hv
    obtain rfl := (hvw.eq_symbol_iff name).1 rfl
    cases hb with
    | nil => exact simulates_fail h _
    | cons hx hrest =>
      cases hrest with
      | nil =>
        exact (hev h hx hde).bind fun hN hvalue ↦
          simulates_bindName hN.mirrors name hvalue (hN.le _ _ hde)
      | cons _ hrest =>
        unfold SpecialForm.runDefine
        dsimp only
        rw [List.length_cons, List.length_cons, List.length_cons, List.length_cons,
          hrest.length_eq]
        exact simulates_fail h _
  · have hv (name : String) : v ≠ .symbol name := fun hs ↦ hv ⟨name, hs⟩
    rw [runDefine_of_ne hv, runDefine_of_ne fun name ↦ mt (hvw.eq_symbol_iff name).2 (hv name)]
    exact simulates_defineProcedure h hvw hb hde

theorem simulates_form {form : SpecialForm} (h : Mirrors M s t)
    (hvs : List.Forall₂ (Value.Matches M) vs ws) (hde : M (.scope d) (.scope e))
    (hn : form.arity.accepts vs.length = true) :
    Simulates M s t (form.run eval vs d) (form.run eval ws e) Value.Matches := by
  cases form with
  | quote =>
    obtain ⟨_, _, rfl, rfl, hvw⟩ := exists_of_forall₂_one hn hvs
    exact simulates_pure h hvw
  | conditional =>
    have hl : vs.length = 2 ∨ vs.length = 3 := by
      simp only [SpecialForm.arity, Arity.accepts, Bool.and_eq_true, decide_eq_true_eq] at hn
      omega
    rcases hl with hl | hl
    · obtain ⟨_, _, _, _, rfl, rfl, hc, hk⟩ :=
        exists_of_forall₂_two (Arity.accepts_exactly.2 hl) hvs
      exact simulates_conditional hev h hc hk hde fun hN ↦ simulates_pure hN.mirrors .nil
    · obtain ⟨_, _, _, rfl⟩ := List.length_eq_three.1 hl
      rcases hvs with _ | ⟨hc, _ | ⟨hk, _ | ⟨ho, ⟨⟩⟩⟩⟩
      exact simulates_conditional hev h hc hk hde fun hN ↦
        hev hN.mirrors (ho.mono hN.le) (hN.le _ _ hde)
  | define =>
    obtain ⟨_, _, _, _, rfl, rfl, hvw, hb⟩ := exists_of_forall₂_atLeast hn hvs
    exact simulates_define hev h hvw hb hde
  | assign =>
    obtain ⟨_, _, _, _, rfl, rfl, hvw, hx⟩ := exists_of_forall₂_two hn hvs
    cases hvw with
    | pair _ => exact simulates_fail h _
    | closure _ => exact simulates_fail h _
    | atom a _ =>
      cases a with
      | symbol name =>
        exact (hev h hx hde).bind fun hN hvalue ↦
          simulates_assignName hN.mirrors name hvalue (hN.le _ _ hde)
      | _ => exact simulates_fail h _
  | lambda =>
    obtain ⟨_, _, _, _, rfl, rfl, hvw, hb⟩ := exists_of_forall₂_atLeast hn hvs
    exact simulates_lambda h hvw hb hde
  | conjunction =>
    exact simulates_firstDeciding hev (fun hvw ↦ hvw.isFalse_eq) h (.boolean true) hvs hde
  | disjunction =>
    exact simulates_firstDeciding hev (fun hvw ↦ hvw.isTrue_eq) h (.boolean false) hvs hde

theorem simulates_applyBuiltin {b : Builtin} (h : Mirrors M s t)
    (hvs : List.Forall₂ (Value.Matches M) vs ws) (hde : M (.scope d) (.scope e)) :
    Simulates M s t (applyBuiltin eval b vs d) (applyBuiltin eval b ws e) Value.Matches := by
  cases b with
  | form f =>
    rw [applyBuiltin, applyBuiltin, ← hvs.length_eq]
    refine (simulates_checkArity h _ _ _ _).bind fun {N _ _ _ _} hN hn ↦ ?_
    have hvs := matches_all_mono hN.le hvs
    apply simulates_record_bind
    · rw [map_eq_of_forall₂ hvs fun _ _ hvw ↦ hN.mirrors.text_eq hvw]
    · exact (simulates_form hev hN.mirrors hvs (hN.le _ _ hde) hn).reporting _
  | procedure p =>
    rw [applyBuiltin, applyBuiltin, ← hvs.length_eq]
    refine (simulates_checkArity h _ _ _ _).bind fun {N _ _ _ _} hN hn ↦ ?_
    refine (simulates_values hev hN.mirrors (matches_all_mono hN.le hvs) (hN.le _ _ hde)).bind
      fun {L _ _ _ _} hL hreceived ↦ ?_
    apply simulates_record_bind
    · rw [map_eq_of_forall₂ hreceived.1 fun _ _ hvw ↦ hL.mirrors.text_eq hvw]
    · exact (simulates_procedure hL.mirrors hreceived.1 (hreceived.2 ▸ hn)).reporting _

theorem simulates_callBody {c c' : Closure} (h : Mirrors M s t) (hc : c.Matches M c')
    (hvs : List.Forall₂ (Value.Matches M) vs ws) :
    Simulates M s t (callBody eval c vs) (callBody eval c' ws) Value.Matches := by
  have hb := Bindings.Matches.zip hvs c.parameters
  rw [callBody, callBody, ← hc.parameters_eq]
  refine (simulates_update (h.openScope hc.scope hb)).bind fun {N _ _ _ _} hN hde ↦ ?_
  apply simulates_record_bind
  · rw [hN.mirrors.scopesText_eq hde]
  · exact simulates_lastValue hev hN.mirrors (matches_all_mono hN.le hc.body) hde

theorem simulates_applyClosure {c c' : Closure} (h : Mirrors M s t) (hc : c.Matches M c')
    (hvs : List.Forall₂ (Value.Matches M) vs ws) (hde : M (.scope d) (.scope e)) :
    Simulates M s t (applyClosure eval c vs d) (applyClosure eval c' ws e) Value.Matches := by
  have ha : c.arity = c'.arity := by rw [Closure.arity, Closure.arity, hc.parameters_eq]
  rw [applyClosure_eq, applyClosure_eq, ← hvs.length_eq, ← ha]
  refine (simulates_checkArity h _ _ _ _).bind fun {N _ _ _ _} hN _ ↦ ?_
  refine (simulates_values hev hN.mirrors (matches_all_mono hN.le hvs) (hN.le _ _ hde)).bind
    fun {L _ _ _ _} hL hreceived ↦ ?_
  exact simulates_callBody hev hL.mirrors ((hc.mono hN.le).mono hL.le) hreceived.1

theorem simulates_apply (h : Mirrors M s t) (hvw : v.Matches M w) (ha : v'.Matches M w')
    (hde : M (.scope d) (.scope e)) :
    Simulates M s t (apply eval v v' d) (apply eval w w' e) Value.Matches := by
  have hnot := simulates_failText h hvw .notCallable
  cases hvw with
  | pair _ => exact hnot
  | closure hc =>
    refine simulates_inspect_bind ((simulates_argumentsOf h ha).bind fun hN hvs ↦ ?_)
    exact simulates_applyClosure hev hN.mirrors ((h.closure hc).mono hN.le) hvs (hN.le _ _ hde)
  | atom a hatom =>
    cases a with
    | builtin b =>
      exact (simulates_argumentsOf h ha).bind fun hN hvs ↦
        simulates_applyBuiltin hev hN.mirrors hvs (hN.le _ _ hde)
    | closure c => exact absurd rfl (hatom c)
    | _ => exact hnot

theorem respects_step : Evaluator.Respects (step eval) := by
  intro M s t v w d e h hvw hde
  have hnot := simulates_failText h hvw .procedureNotEvaluable
  apply simulates_record_bind
  · rw [h.text_eq hvw]
  cases hvw with
  | closure _ => exact hnot
  | pair hpq =>
    refine simulates_inspect_bind ((hev h (h.first hpq) hde).bind fun hN hcallee ↦ ?_)
    apply simulates_inspect_bind
    exact simulates_apply hev hN.mirrors hcallee (hN.mirrors.second (hN.le _ _ hpq))
      (hN.le _ _ hde)
  | atom a ha =>
    cases a with
    | nil => exact simulates_fail h _
    | integer n => exact simulates_pure h (.integer n)
    | symbol name =>
      dsimp only
      split
      · exact simulates_pure h (.symbol name)
      · exact simulates_fetch h name hde
    | builtin b => exact hnot
    | closure c => exact absurd rfl (ha c)

end Evaluator

theorem respects_eval (depth : Nat) : Evaluator.Respects (eval depth) := by
  induction depth with
  | zero => exact fun _ _ _ ↦ simulates_halt _
  | succ depth ih => exact respects_step ih

/-- A text without closures is answered alike in scopes that correspond. -/
theorem simulates_answerText (depth : Nat) (text : String)
    (hp : ∀ d, Datum.ofText text = .ok d → d.Plain) (h : Mirrors M s t)
    (hde : M (.scope d) (.scope e)) :
    Simulates M s t (answerText depth text d) (answerText depth text e) fun _ a b ↦ a = b := by
  have hx : Simulates M s t (evalText depth text d) (evalText depth text e) Value.Matches := by
    have hdatum : Agrees (fun x y ↦ x = y ∧ x.Plain) ((Datum.ofText text).mapError Error.reading)
        ((Datum.ofText text).mapError Error.reading) := by
      cases ho : Datum.ofText text with
      | error e => exact .error _
      | ok x => exact .ok ⟨rfl, hp x ho⟩
    refine simulates_ofExcept_bind h hdatum fun x y hxy ↦ ?_
    obtain ⟨rfl, hplain⟩ := hxy
    refine (simulates_update (h.load hplain)).bind fun {N _ _ _ _} hN hvw ↦ ?_
    apply simulates_record_bind
    · rw [hN.mirrors.text_eq hvw]
    · exact respects_eval depth hN.mirrors hvw (hN.le _ _ hde)
  refine hx.bind fun hN hvw ↦ ?_
  exact simulates_inspect hN.mirrors (hN.mirrors.text_eq hvw)

end MiniScheme
