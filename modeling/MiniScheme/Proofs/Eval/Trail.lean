import MiniScheme.Eval.Basic
import MiniScheme.Proofs.Store.Extend

namespace MiniScheme

/-- What a built-in does to the store by itself, apart from evaluating expressions. -/
inductive Builtin.Changes : Builtin → Store → Store → Prop
  | extend {b : Builtin} {s t : Store} (h : s.ExtendedBy t) : Changes b s t
  | define (s : Store) (e : Address) (name : String) (v : Value) :
      Changes (.form .define) s (s.bindHere e name v)
  | assign {s t : Store} {e : Address} {name : String} {v : Value}
      (h : s.assign e name v = some t) : Changes (.form .assign) s t
  | setFirst (s : Store) (p : Address) (v : Value) :
      Changes (.procedure .setCar) s (s.setFirst p v)
  | setSecond (s : Store) (p : Address) (v : Value) :
      Changes (.procedure .setCdr) s (s.setSecond p v)

namespace Event

/-- The built-in whose call begins with an event. -/
def opens? : Event → Option Builtin
  | apply form _ => some (.form form)
  | call procedure _ => some (.procedure procedure)
  | _ => none

/-- The built-in whose call ends with an event. -/
def closes? : Event → Option Builtin
  | returned callee _ | failed callee _ => some callee
  | _ => none

/-- Neither the beginning nor the end of a call of a built-in. -/
def IsNote (event : Event) : Prop := event.opens? = none ∧ event.closes? = none

/-- The event with which a call ends that has failed with the given error, or has not failed. -/
inductive Reports (b : Builtin) : Option Error → Event → Prop
  | returned (text : String) : Reports b none (.returned b text)
  | failed (e : Error) : Reports b (some e) (.failed b e)

end Event

namespace Run

variable {α : Type}

def failure (run : Run α) : Option Error :=
  match run.result with
  | .ok _ => none
  | .error e => some e

end Run

/-- What an evaluation leaves behind: from the store before it to its error, if it fails, to the
store after it and to its log. -/
inductive Trail : Store → Option Error → Store → List Event → Prop
  | done (s : Store) : Trail s none s []
  | fail (s : Store) (e : Error) : Trail s (some e) s []
  | note (s : Store) {event : Event} (h : event.IsNote) : Trail s none s [event]
  | extend {s t : Store} (h : s.ExtendedBy t) : Trail s none t []
  | seq {s t u : Store} {r : Option Error} {log later : List Event}
      (h : Trail s none t log) (h' : Trail t r u later) : Trail s r u (log ++ later)
  | form {s t u : Store} {r : Option Error} {log : List Event} {event : Event} {f : SpecialForm}
      (arguments : List String) (h : Trail s r t log) (hc : (Builtin.form f).Changes t u)
      (he : event.Reports (.form f) r) : Trail s r u (.apply f arguments :: (log ++ [event]))
  | call {s t : Store} {r : Option Error} {event : Event} {p : Procedure}
      (arguments : List String) (hc : (Builtin.procedure p).Changes s t)
      (he : event.Reports (.procedure p) r) : Trail s r t [.call p arguments, event]

open EvalM Eval

variable {α β : Type} {m : EvalM α} {k : α → EvalM β} {f : SpecialForm} {p : Procedure}

/-- Every finished run of an evaluation is a trail, if all events are shown. -/
def Trails (m : EvalM α) : Prop :=
  ∀ s run, m .trace s = .ok run → Trail s run.failure run.store run.log

/-- A trail at whose end a form may change the store. -/
def Leads (f : SpecialForm) (m : EvalM α) : Prop :=
  ∀ s run, m .trace s = .ok run →
    ∃ t, Trail s run.failure t run.log ∧ (Builtin.form f).Changes t run.store

/-- No events, and no changes but those of a procedure. -/
def Acts (p : Procedure) (m : EvalM α) : Prop :=
  ∀ s run, m .trace s = .ok run → run.log = [] ∧ (Builtin.procedure p).Changes s run.store

/-- No events and no changes. -/
def Looks (m : EvalM α) : Prop := ∀ s run, m .trace s = .ok run → run.log = [] ∧ run.store = s

section Rules

theorem looks_pure (a : α) : Looks (pure a : EvalM α) := by
  rintro s run ⟨⟩
  exact ⟨rfl, rfl⟩

theorem looks_fail (e : Error) : Looks (fail e : EvalM α) := by
  rintro s run ⟨⟩
  exact ⟨rfl, rfl⟩

theorem looks_inspect (g : Store → α) : Looks (inspect g) := by
  rintro s run ⟨⟩
  exact ⟨rfl, rfl⟩

theorem looks_ofExcept (x : Except Error α) : Looks (ofExcept x) := by
  cases x with
  | ok a => exact looks_pure a
  | error e => exact looks_fail e

theorem looks_halt (h : Halt) : Looks (halt h : EvalM α) := by
  rintro s run ⟨⟩

theorem Looks.trails (h : Looks m) : Trails m := by
  intro s run hr
  obtain ⟨hl, hs⟩ := h s run hr
  rw [hl, hs]
  cases run.failure with
  | none => exact .done s
  | some e => exact .fail s e

theorem Looks.acts (h : Looks m) : Acts p m := by
  intro s run hr
  obtain ⟨hl, hs⟩ := h s run hr
  rw [hs]
  exact ⟨hl, .extend (.refl s)⟩

theorem Looks.bind_looks (h : Looks m) (hk : ∀ a, Looks (k a)) : Looks (m >>= k) := by
  intro s run hr
  rcases bind_eq_ok_iff.1 hr with ⟨e, t, log, hm, rfl⟩ | ⟨a, t, log, later, hm, hk', rfl⟩
  · exact h s _ hm
  · obtain ⟨rfl, rfl⟩ := h s _ hm
    exact hk a _ _ hk'

theorem Looks.bind_acts (h : Looks m) (hk : ∀ a, Acts p (k a)) : Acts p (m >>= k) := by
  intro s run hr
  rcases bind_eq_ok_iff.1 hr with ⟨e, t, log, hm, rfl⟩ | ⟨a, t, log, later, hm, hk', rfl⟩
  · exact h.acts s _ hm
  · obtain ⟨rfl, rfl⟩ := h s _ hm
    exact hk a _ _ hk'

theorem Trails.bind (h : Trails m) (hk : ∀ a, Trails (k a)) : Trails (m >>= k) := by
  intro s run hr
  rcases bind_eq_ok_iff.1 hr with ⟨e, t, log, hm, rfl⟩ | ⟨a, t, log, later, hm, hk', rfl⟩
  · exact h s _ hm
  · exact (h s _ hm).seq (hk a t later hk')

theorem trails_update {g : Store → α × Store} (h : ∀ s : Store, s.ExtendedBy (g s).2) :
    Trails (update g) := by
  rintro s run ⟨⟩
  exact .extend (h s)

theorem trails_record {level : Level} {event : Store → Event} (h : ∀ s, (event s).IsNote) :
    Trails (record level event) := by
  rintro s run ⟨⟩
  exact .note s (h s)

theorem Trails.leads (h : Trails m) : Leads f m :=
  fun s run hr ↦ ⟨run.store, h s run hr, .extend (.refl _)⟩

theorem Trails.bind_leads (h : Trails m) (hk : ∀ a, Leads f (k a)) : Leads f (m >>= k) := by
  intro s run hr
  rcases bind_eq_ok_iff.1 hr with ⟨e, t, log, hm, rfl⟩ | ⟨a, t, log, later, hm, hk', rfl⟩
  · exact h.leads s _ hm
  · obtain ⟨u, ht, hc⟩ := hk a t later hk'
    exact ⟨u, (h s _ hm).seq ht, hc⟩

theorem acts_update {g : Store → α × Store} (h : ∀ s, (Builtin.procedure p).Changes s (g s).2) :
    Acts p (update g) := by
  rintro s run ⟨⟩
  exact ⟨rfl, h s⟩

theorem reports_ending (b : Builtin) (run : Run Value) : (ending b run).Reports b run.failure := by
  rw [ending, Run.failure]
  cases run.result with
  | ok v => exact .returned _
  | error e => exact .failed e

theorem Leads.trails {m : EvalM Value} (h : Leads f m) (arguments : Store → List String) :
    Trails (do record .trace fun s ↦ .apply f (arguments s); reporting (.form f) m) := by
  intro s run hr
  rcases bind_eq_ok_iff.1 hr with ⟨e, t, log, hm, rfl⟩ | ⟨a, t, log, later, hm, hk, rfl⟩
  · cases hm
  · cases hm
    rw [reporting] at hk
    split at hk
    · cases hk
    · next inside hi =>
      cases hk
      obtain ⟨t, ht, hc⟩ := h s inside hi
      exact .form _ ht hc (reports_ending (.form f) inside)

theorem Acts.trails {m : EvalM Value} (h : Acts p m) (arguments : Store → List String) :
    Trails (do record .trace fun s ↦ .call p (arguments s); reporting (.procedure p) m) := by
  intro s run hr
  rcases bind_eq_ok_iff.1 hr with ⟨e, t, log, hm, rfl⟩ | ⟨a, t, log, later, hm, hk, rfl⟩
  · cases hm
  · cases hm
    rw [reporting] at hk
    split at hk
    · cases hk
    · next inside hi =>
      cases hk
      obtain ⟨hl, hc⟩ := h s inside hi
      rw [hl]
      exact .call _ hc (reports_ending (.procedure p) inside)

end Rules

section Builtins

theorem looks_integersOf_bind {vs : List Value} {g : List Int64 → EvalM β}
    (h : ∀ ns, Looks (g ns)) :
    Looks (Procedure.integersOf vs >>= g) :=
  (looks_ofExcept _).bind_looks h

theorem looks_toPair_inspect (v : Value) (g : Address → Store → Value) :
    Looks (do let p ← ofExcept v.toPair; inspect (g p)) :=
  (looks_ofExcept _).bind_looks fun _ ↦ looks_inspect _

theorem looks_toInteger_inspect (k : Value) (g : Int64 → Store → Except Error Value) :
    Looks (do let n ← ofExcept k.toInteger; ofExcept (← inspect (g n))) :=
  (looks_ofExcept _).bind_looks fun _ ↦ (looks_inspect _).bind_looks fun _ ↦ looks_ofExcept _

theorem acts_run (p : Procedure) (arguments : List Value) : Acts p (p.run arguments) := by
  have hpure (v : Value) : Looks (pure v) := looks_pure v
  unfold Procedure.run
  split
  -- pairs and lists
  · exact acts_update fun s ↦ .extend (Store.extendedBy_cons s _ _)
  · exact (looks_toPair_inspect _ fun p s ↦ s.first p).acts
  · exact (looks_toPair_inspect _ fun p s ↦ s.second p).acts
  · exact (looks_ofExcept _).bind_acts fun p ↦ acts_update fun s ↦ .setFirst s p _
  · exact (looks_ofExcept _).bind_acts fun p ↦ acts_update fun s ↦ .setSecond s p _
  · exact acts_update fun s ↦ .extend (Store.extendedBy_ofList s _ _)
  · exact (looks_toInteger_inspect _ fun n s ↦ s.listTail _ n).acts
  · exact (looks_toInteger_inspect _ fun n s ↦ s.listRef _ n).acts
  -- numbers
  · exact (looks_integersOf_bind fun ns ↦ hpure _).acts
  · exact (looks_integersOf_bind fun ns ↦ hpure _).acts
  · exact ((looks_ofExcept _).bind_looks fun n ↦ looks_integersOf_bind fun ns ↦ hpure _).acts
  · exact ((looks_ofExcept _).bind_looks fun n ↦ looks_integersOf_bind fun ns ↦
      (looks_ofExcept _).bind_looks fun q ↦ hpure _).acts
  · exact ((looks_ofExcept _).bind_looks fun n ↦ looks_integersOf_bind fun ns ↦ hpure _).acts
  · exact ((looks_ofExcept _).bind_looks fun n ↦ looks_integersOf_bind fun ns ↦ hpure _).acts
  · exact ((looks_ofExcept _).bind_looks fun n ↦ hpure _).acts
  · exact (looks_integersOf_bind fun ns ↦ hpure _).acts
  -- tests, and calls that no arity lets through
  · exact (looks_inspect _).acts
  · exact (looks_halt _).acts

end Builtins

section Evaluator

theorem trails_checkArity (name : String) (expected : Arity) (received : Nat)
    (e : ArityMismatch → Error) : Trails (checkArity name expected received e) := by
  rw [checkArity]
  split
  · exact (looks_pure ()).trails
  · exact (looks_fail _).trails

theorem trails_makeClosure (parameters body : List Value) (scope : Address) :
    Trails (SpecialForm.makeClosure parameters body scope) :=
  (looks_ofExcept _).trails.bind fun _ ↦ trails_update fun s ↦ Store.extendedBy_newClosure s _

theorem leads_bindName (name : String) (v : Value) (scope : Address) :
    Leads .define (SpecialForm.bindName name v scope) := by
  apply (trails_record fun s ↦ ⟨rfl, rfl⟩).bind_leads
  rintro ⟨⟩ s run ⟨⟩
  exact ⟨s, .done s, .define s scope name v⟩

theorem leads_assignName (name : String) (v : Value) (scope : Address) :
    Leads .assign (SpecialForm.assignName name v scope) := by
  intro s run hr
  rw [SpecialForm.assignName] at hr
  split at hr
  · next t ha =>
    cases hr
    exact ⟨s, .done s, .assign ha⟩
  · cases hr
    exact ⟨s, .fail s _, .extend (.refl s)⟩

theorem trails_argumentsOf (arguments : Value) : Trails (argumentsOf arguments) := by
  apply (looks_inspect _).trails.bind
  intro elements
  split
  · exact (looks_pure _).trails
  · exact (looks_fail _).trails

theorem trails_fetch (name : String) (scope : Address) : Trails (fetch name scope) := by
  apply (looks_inspect _).trails.bind
  intro found
  split
  · exact (looks_pure _).trails
  · exact (looks_fail _).trails

variable {eval : Evaluator} (hev : ∀ x e, Trails (eval x e))
include hev

theorem trails_values (expressions : List Value) (scope : Address) :
    Trails (values eval expressions scope) := by
  induction expressions with
  | nil => exact (looks_pure _).trails
  | cons x xs ih =>
    rw [values, List.mapM_cons]
    exact (hev x scope).bind fun v ↦ ih.bind fun vs ↦ (looks_pure _).trails

theorem trails_lastValue (expressions : List Value) (scope : Address) :
    Trails (lastValue eval expressions scope) := by
  induction expressions with
  | nil => exact (looks_pure _).trails
  | cons x xs ih =>
    cases xs with
    | nil => exact hev x scope
    | cons y ys => exact (hev x scope).bind fun _ ↦ ih

theorem trails_firstDeciding (decides : Value → Bool) (scope : Address) (last : Value)
    (expressions : List Value) :
    Trails (SpecialForm.firstDeciding eval decides scope last expressions) := by
  induction expressions generalizing last with
  | nil => exact (looks_pure _).trails
  | cons x xs ih =>
    apply (hev x scope).bind
    intro v
    split
    · exact (looks_pure _).trails
    · exact ih v

theorem trails_conditional (condition consequent : Value) (scope : Address) {m : EvalM Value}
    (hm : Trails m) :
    Trails (do if (← eval condition scope).isTrue then eval consequent scope else m) := by
  apply (hev condition scope).bind
  intro v
  split
  · exact hev consequent scope
  · exact hm

theorem leads_define (target : Value) (body : List Value) (scope : Address) :
    Leads .define (SpecialForm.runDefine eval target body scope) := by
  unfold SpecialForm.runDefine
  split
  · split
    · exact (hev _ scope).bind_leads fun v ↦ leads_bindName _ v scope
    · exact (looks_fail _).trails.leads
  · apply (looks_inspect _).trails.bind_leads
    intro elements
    split
    · exact (trails_makeClosure _ body scope).bind_leads fun v ↦ leads_bindName _ v scope
    · exact (looks_fail _).trails.leads
    · exact (looks_fail _).trails.leads

theorem leads_run (form : SpecialForm) (arguments : List Value) (scope : Address) :
    Leads form (form.run eval arguments scope) := by
  unfold SpecialForm.run
  split
  · exact (looks_pure _).trails.leads
  · exact (trails_conditional hev _ _ scope (looks_pure _).trails).leads
  · exact (trails_conditional hev _ _ scope (hev _ scope)).leads
  · exact leads_define hev _ _ scope
  · exact (hev _ scope).bind_leads fun v ↦ leads_assignName _ v scope
  · exact (looks_fail _).trails.leads
  · apply Trails.leads
    apply (looks_inspect _).trails.bind
    intro elements
    split
    · exact trails_makeClosure _ _ scope
    · exact (looks_fail _).trails
  · exact (trails_firstDeciding hev _ scope _ _).leads
  · exact (trails_firstDeciding hev _ scope _ _).leads
  · exact (looks_halt _).trails.leads

theorem trails_applyBuiltin (b : Builtin) (arguments : List Value) (scope : Address) :
    Trails (applyBuiltin eval b arguments scope) := by
  cases b with
  | form f =>
    exact (trails_checkArity _ _ _ _).bind fun _ ↦ (leads_run hev f arguments scope).trails _
  | procedure p =>
    exact (trails_checkArity _ _ _ _).bind fun _ ↦
      (trails_values hev arguments scope).bind fun received ↦ (acts_run p received).trails _

theorem trails_applyClosure (c : Closure) (arguments : List Value) (scope : Address) :
    Trails (applyClosure eval c arguments scope) :=
  (trails_checkArity _ _ _ _).bind fun _ ↦
    (trails_values hev arguments scope).bind fun _ ↦
      (trails_update fun s ↦ Store.extendedBy_openScope s c.scope _).bind fun inner ↦
        (trails_record fun _ ↦ ⟨rfl, rfl⟩).bind fun _ ↦ trails_lastValue hev c.body inner

theorem trails_apply (callee arguments : Value) (scope : Address) :
    Trails (apply eval callee arguments scope) := by
  unfold Eval.apply
  split
  · exact (trails_argumentsOf arguments).bind fun vs ↦ trails_applyBuiltin hev _ vs scope
  · exact (looks_inspect _).trails.bind fun c ↦ (trails_argumentsOf arguments).bind fun vs ↦
      trails_applyClosure hev c vs scope
  · exact (looks_inspect _).trails.bind fun _ ↦ (looks_fail _).trails

theorem trails_step (x : Value) (scope : Address) : Trails (step eval x scope) := by
  apply (trails_record fun s ↦ ⟨rfl, rfl⟩).bind
  rintro ⟨⟩
  split
  · exact (looks_pure _).trails
  · split
    · exact (looks_pure _).trails
    · exact trails_fetch _ scope
  · exact (looks_inspect _).trails.bind fun head ↦ (hev head scope).bind fun callee ↦
      (looks_inspect _).trails.bind fun rest ↦ trails_apply hev callee rest scope
  · exact (looks_fail _).trails
  · exact (looks_inspect _).trails.bind fun _ ↦ (looks_fail _).trails
  · exact (looks_inspect _).trails.bind fun _ ↦ (looks_fail _).trails

end Evaluator

theorem trails_eval (depth : Nat) (x : Value) (e : Address) : Trails (eval depth x e) := by
  induction depth generalizing x e with
  | zero => exact (looks_halt _).trails
  | succ depth ih => exact trails_step ih x e

theorem trails_answerText (depth : Nat) (text : String) (e : Address) :
    Trails (answerText depth text e) := by
  refine Trails.bind ?_ fun v ↦ (looks_inspect _).trails
  exact (looks_ofExcept _).trails.bind fun d ↦
    (trails_update fun s ↦ Store.extendedBy_load s d).bind fun x ↦
      (trails_record fun s ↦ ⟨rfl, rfl⟩).bind fun _ ↦ trails_eval depth x e

end MiniScheme
