import MiniScheme.Eval.Monad
import MiniScheme.Proofs.Store.Advance

namespace MiniScheme

/-- The same error twice, or two results that are related. -/
inductive Agrees {ε α β : Type} (R : α → β → Prop) : Except ε α → Except ε β → Prop
  | error (e : ε) : Agrees R (.error e) (.error e)
  | ok {a : α} {b : β} (h : R a b) : Agrees R (.ok a) (.ok b)

theorem agrees_self {ε α : Type} (x : Except ε α) : Agrees Eq x x := by
  cases x with
  | error e => exact .error e
  | ok a => exact .ok rfl

theorem eq_of_agrees {ε α : Type} {x y : Except ε α} (h : Agrees Eq x y) : x = y := by
  cases h with
  | error e => rfl
  | ok hab => exact congrArg Except.ok hab

theorem Agrees.exists_left {ε α β : Type} {R : α → β → Prop} {x : Except ε α} {y : Except ε β}
    {b : β} (h : Agrees R x y) (hy : y = .ok b) : ∃ a, x = .ok a ∧ R a b := by
  cases h with
  | error e => cases hy
  | ok hab =>
    cases hy
    exact ⟨_, rfl, hab⟩

theorem Agrees.exists_right {ε α β : Type} {R : α → β → Prop} {x : Except ε α} {y : Except ε β}
    {a : α} (h : Agrees R x y) (hx : x = .ok a) : ∃ b, y = .ok b ∧ R a b := by
  cases h with
  | error e => cases hx
  | ok hab =>
    cases hx
    exact ⟨_, rfl, hab⟩

/-- Two finished evaluations have recorded the same events and come to the same error or to related
results, in stores that still mirror each other. -/
structure Run.Mirrors {α β : Type} (M : Correspondence) (s t : Store)
    (Q : Correspondence → α → β → Prop) (run : Run α) (run' : Run β) : Prop where
  log_eq : run.log = run'.log
  moves : Store.MovesTo M s t (fun N ↦ Agrees (Q N)) (run.result, run.store)
    (run'.result, run'.store)

namespace EvalM

open Store

variable {α β γ δ : Type} {M : Correspondence} {s t : Store} {m : EvalM α} {m' : EvalM β}
  {f : α → EvalM γ} {f' : β → EvalM δ} {Q : Correspondence → α → β → Prop}
  {R : Correspondence → γ → δ → Prop} {a : α} {b : β}

/-- Two evaluations do the same on stores that mirror each other. -/
def Simulates (M : Correspondence) (s t : Store) (m : EvalM α) (m' : EvalM β)
    (Q : Correspondence → α → β → Prop) : Prop :=
  ∀ verbosity, Agrees (Run.Mirrors M s t Q) (m verbosity s) (m' verbosity t)

theorem simulates_pure (h : Mirrors M s t) (hq : Q M a b) :
    Simulates M s t (pure a) (pure b) Q :=
  fun _ ↦ .ok ⟨rfl, M, h.advances, .ok hq⟩

theorem simulates_fail (h : Mirrors M s t) (e : Error) : Simulates M s t (fail e) (fail e) Q :=
  fun _ ↦ .ok ⟨rfl, M, h.advances, .error e⟩

theorem simulates_halt (h : Halt) : Simulates M s t (halt h) (halt h) Q :=
  fun _ ↦ .error h

theorem simulates_update {g : Store → α × Store} {g' : Store → β × Store}
    (h : MovesTo M s t Q (g s) (g' t)) : Simulates M s t (update g) (update g') Q := by
  obtain ⟨N, hN, hq⟩ := h
  exact fun _ ↦ .ok ⟨rfl, N, hN, .ok hq⟩

theorem simulates_inspect (h : Mirrors M s t) {g : Store → α} {g' : Store → β}
    (hq : Q M (g s) (g' t)) : Simulates M s t (inspect g) (inspect g') Q :=
  fun _ ↦ .ok ⟨rfl, M, h.advances, .ok hq⟩

theorem simulates_ofExcept (h : Mirrors M s t) {x : Except Error α} {y : Except Error β}
    (hxy : Agrees (Q M) x y) : Simulates M s t (ofExcept x) (ofExcept y) Q := by
  cases hxy with
  | error e => exact simulates_fail h e
  | ok hq => exact simulates_pure h hq

/-- What follows starts from the stores that the first parts have left. -/
theorem Simulates.bind (h : Simulates M s t m m' Q)
    (hf : ∀ {N s' t' a b}, Advances M s t N s' t' → Q N a b → Simulates N s' t' (f a) (f' b) R) :
    Simulates M s t (m >>= f) (m' >>= f') R := by
  intro verbosity
  have hm := h verbosity
  change Agrees _ (EvalM.bind m f verbosity s) (EvalM.bind m' f' verbosity t)
  rw [EvalM.bind, EvalM.bind]
  generalize m verbosity s = x, m' verbosity t = y at hm
  cases hm with
  | error halted => exact .error halted
  | @ok run run' hrun =>
    obtain ⟨result, s', log⟩ := run
    obtain ⟨result', t', log'⟩ := run'
    obtain ⟨rfl, N, hN, hresult⟩ := hrun
    dsimp only at hN hresult ⊢
    cases hresult with
    | error e => exact .ok ⟨rfl, N, hN, .error e⟩
    | @ok a b hq =>
      have hnext := hf hN hq verbosity
      dsimp only
      generalize f a verbosity s' = x, f' b verbosity t' = y at hnext
      cases hnext with
      | error halted => exact .error halted
      | ok hlater =>
        obtain ⟨L, hL, hend⟩ := hlater.moves
        exact .ok ⟨congrArg (log ++ ·) hlater.log_eq, L, hN.trans hL, hend⟩

theorem inspect_bind_apply (g : Store → α) (f : α → EvalM γ) (verbosity : Verbosity) (s : Store) :
    (inspect g >>= f) verbosity s = f (g s) verbosity s :=
  congrFun (congrFun (EvalM.pure_bind (g s) f) verbosity) s

theorem simulates_inspect_bind {g : Store → α} {g' : Store → β}
    (hf : Simulates M s t (f (g s)) (f' (g' t)) R) :
    Simulates M s t (inspect g >>= f) (inspect g' >>= f') R := by
  intro verbosity
  rw [inspect_bind_apply, inspect_bind_apply]
  exact hf verbosity

theorem simulates_record_bind {level : Level} {event event' : Store → Event}
    {f : Unit → EvalM γ} {f' : Unit → EvalM δ} (he : event s = event' t)
    (hf : Simulates M s t (f ()) (f' ()) R) :
    Simulates M s t (record level event >>= f) (record level event' >>= f') R := by
  intro verbosity
  have hnext := hf verbosity
  change Agrees _ (EvalM.bind _ f verbosity s) (EvalM.bind _ f' verbosity t)
  rw [EvalM.bind, EvalM.bind, record, record]
  dsimp only
  rw [he]
  generalize f () verbosity s = x, f' () verbosity t = y at hnext
  cases hnext with
  | error halted => exact .error halted
  | ok hrun => exact .ok ⟨congrArg (_ ++ ·) hrun.log_eq, hrun.moves⟩

theorem simulates_ofExcept_bind {P : α → β → Prop} {x : Except Error α} {y : Except Error β}
    (h : Mirrors M s t) (hxy : Agrees P x y)
    (hf : ∀ a b, P a b → Simulates M s t (f a) (f' b) R) :
    Simulates M s t (ofExcept x >>= f) (ofExcept y >>= f') R := by
  have hp {α γ : Type} (a : α) (f : α → EvalM γ) : (ofExcept (.ok a) >>= f) = f a := pure_bind a f
  cases hxy with
  | error e => exact simulates_fail h e
  | ok hab =>
    rw [hp, hp]
    exact hf _ _ hab

theorem simulates_same_bind {x : Except Error α} {f' : α → EvalM δ} (h : Mirrors M s t)
    (hf : ∀ a, Simulates M s t (f a) (f' a) R) :
    Simulates M s t (ofExcept x >>= f) (ofExcept x >>= f') R := by
  refine simulates_ofExcept_bind h (agrees_self x) fun a b hab ↦ ?_
  obtain rfl := hab
  exact hf a

theorem Simulates.reporting {m m' : EvalM Value} (h : Simulates M s t m m' Value.Matches)
    (callee : Builtin) :
    Simulates M s t (reporting callee m) (reporting callee m') Value.Matches := by
  intro verbosity
  have hm := h verbosity
  rw [EvalM.reporting, EvalM.reporting]
  generalize m verbosity s = x, m' verbosity t = y at hm
  cases hm with
  | error halted => exact .error halted
  | @ok run run' hrun =>
    obtain ⟨N, hN, hresult⟩ := hrun.moves
    have hending : ending callee run = ending callee run' := by
      rw [ending, ending]
      generalize run.result = x, run'.result = y at hresult
      cases hresult with
      | error e => rfl
      | ok hvw => exact congrArg (Event.returned callee) (hN.mirrors.text_eq hvw)
    refine .ok ⟨?_, hrun.moves⟩
    dsimp only
    rw [hrun.log_eq, hending]

end EvalM

end MiniScheme
