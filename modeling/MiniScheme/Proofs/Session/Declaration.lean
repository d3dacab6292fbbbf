import MiniScheme.Proofs.Eval.Declaration
import MiniScheme.Proofs.Session.Mirror
import MiniScheme.Proofs.Session.Whole

namespace MiniScheme

open Store EvalM Eval

namespace Session

/-- To define a procedure by its declaration and to define its name as a lambda come to the same, in
stores that have all of one store and may have more, such as the arguments. Both fail alike and
change nothing, or else the name stands for equal closures, and nothing else has changed. No lines
after that tell one from the other. In a session nothing that can be reached is missing
(`closedUnder_contains_of_runAll`). -/
theorem declaration_defines_lambda (s s₁ s₂ : Store) (env : Address) (name : String)
    (parameters body : List Value) (arguments₁ arguments₂ : Value)
    (hs : ∀ n, s.Reaches (.scope env :: body.filterMap Value.node?) n → s.Contains n)
    (hl : s.lookup env SpecialForm.lambda.name = some (.builtin (.form .lambda)))
    (hb : body ≠ []) (h₁ : s.ExtendedBy s₁) (h₂ : s.ExtendedBy s₂)
    (ha₁ : s₁.IsDeclaration arguments₁ name parameters body)
    (ha₂ : s₂.IsLambdaDefinition arguments₂ name parameters body)
    (depth : Nat) (verbosity : Verbosity) :
    ∃ result t₁ t₂,
      (apply (eval (depth + 2)) (.builtin (.form .define)) arguments₁ env).EndsIn verbosity s₁
        result t₁ ∧
      (apply (eval (depth + 2)) (.builtin (.form .define)) arguments₂ env).EndsIn verbosity s₂
        result t₂ ∧
      (parameters.all Value.isSymbol = false ∧ result = .error .parameterNotASymbol ∧
          s.ExtendedBy t₁ ∧ s.ExtendedBy t₂ ∨
        ∃ names : List String, parameters = names.map Value.symbol ∧ result = .ok .nil ∧
          s.GainsClosure env name ⟨names, body, env⟩ t₁ ∧
          s.GainsClosure env name ⟨names, body, env⟩ t₂) ∧
      ∀ depth' verbosity' lines,
        (runAll ⟨t₁, env⟩ depth' verbosity' lines).map Prod.fst =
          (runAll ⟨t₂, env⟩ depth' verbosity' lines).map Prod.fst := by
  -- Only what the scope and the body lead to has to correspond: the arguments are out of reach.
  let A := s.Reaches (.scope env :: body.filterMap Value.node?)
  have hM : Mirrors (.identity A) s₁ s₂ :=
    mirrors_of_extendedBy (s.closedUnder_reaches _) hs h₁ h₂
  have henv : A (.scope env) := reaches_of_mem List.mem_cons_self
  have hlambda : s₂.lookup env SpecialForm.lambda.name = some (.builtin (.form .lambda)) :=
    (mirrors_of_extendedBy (s.closedUnder_reaches _) hs (.refl s) h₂).lookup_builtin
      ⟨rfl, henv⟩ hl
  cases hall : parameters.all Value.isSymbol with
  | false =>
    have hend := endsIn_defineLambda_of_not_all hall name body env verbosity
    refine ⟨_, s₁, s₂, endsIn_apply_declaration ha₁ hb (hend s₁),
      endsIn_apply_lambdaDefinition ha₂ hlambda hb (hend s₂), .inl ⟨rfl, rfl, h₁, h₂⟩,
      fun depth' verbosity' lines ↦ ?_⟩
    exact replies_runAll_eq hM ⟨rfl, henv⟩ depth' verbosity' lines
  | true =>
    obtain ⟨names, rfl⟩ := exists_names_of_all hall
    have hend := endsIn_defineLambda_map name names body env verbosity
    have hclosure : Closure.Matches (.identity A) ⟨names, body, env⟩ ⟨names, body, env⟩ := by
      refine ⟨rfl, matches_all_identity fun v hv n hn ↦ ?_, rfl, henv⟩
      exact reaches_of_mem (List.mem_cons_of_mem _ (List.mem_filterMap.2 ⟨v, hv, hn⟩))
    obtain ⟨N, hN⟩ := hM.defineClosure ⟨rfl, henv⟩ hclosure name
    refine ⟨_, _, _, endsIn_apply_declaration ha₁ hb (hend s₁),
      endsIn_apply_lambdaDefinition ha₂ hlambda hb (hend s₂),
      .inr ⟨names, rfl, rfl, h₁.gainsClosure (hs _ henv) name _,
        h₂.gainsClosure (hs _ henv) name _⟩, fun depth' verbosity' lines ↦ ?_⟩
    refine replies_runAll_eq hN.mirrors ?_ depth' verbosity' lines
    exact hN.le _ _ ⟨rfl, henv⟩

/-- The arguments `((f x) x)`. -/
def declaration : Value × Store :=
  new.store.load (.ofList [.ofList [.symbol "f", .symbol "x"] .nil, .symbol "x"] .nil)

/-- The arguments `(f (lambda (x) x))`. -/
def lambdaDefinition : Value × Store :=
  new.store.load (.ofList [.symbol "f",
    .ofList [.symbol "lambda", .ofList [.symbol "x"] .nil, .symbol "x"] .nil] .nil)

theorem declaration_defines_lambda_identity :
    ∃ t₁ t₂,
      (apply (eval 2) (.builtin (.form .define)) declaration.1 new.global).EndsIn .silent
        declaration.2 (.ok .nil) t₁ ∧
      (apply (eval 2) (.builtin (.form .define)) lambdaDefinition.1 new.global).EndsIn .silent
        lambdaDefinition.2 (.ok .nil) t₂ ∧
      new.store.GainsClosure new.global "f" ⟨["x"], [.symbol "x"], new.global⟩ t₁ ∧
      new.store.GainsClosure new.global "f" ⟨["x"], [.symbol "x"], new.global⟩ t₂ ∧
      (runAll ⟨t₁, new.global⟩ 9 .silent ["(f 7)", "f"]).map Prod.fst =
        (runAll ⟨t₂, new.global⟩ 9 .silent ["(f 7)", "f"]).map Prod.fst := by
  have hdeclaration :
      declaration.2.IsDeclaration declaration.1 "f" [.symbol "x"] [.symbol "x"] :=
    ⟨_, rfl, rfl⟩
  have hdefinition :
      lambdaDefinition.2.IsLambdaDefinition lambdaDefinition.1 "f" [.symbol "x"] [.symbol "x"] :=
    ⟨_, _, rfl, rfl, rfl⟩
  obtain ⟨hclosed, hglobal⟩ :=
    closedUnder_contains_of_runAll (show new.runAll 0 .silent [] = .ok ([], new) from rfl)
  have hs (n : Node) (hn : new.store.Reaches [.scope new.global] n) : new.store.Contains n :=
    hn.of_closedUnder hclosed (List.forall_mem_singleton.2 hglobal)
  obtain ⟨result, t₁, t₂, hend, hend', hcases, hreplies⟩ :=
    declaration_defines_lambda new.store declaration.2 lambdaDefinition.2 new.global "f"
      [.symbol "x"] [.symbol "x"] declaration.1 lambdaDefinition.1 hs (by decide) (by decide)
      (extendedBy_load _ _) (extendedBy_load _ _) hdeclaration hdefinition 0 .silent
  obtain ⟨hall, -⟩ | ⟨names, hnames, rfl, hgains, hgains'⟩ := hcases
  · cases hall
  · obtain rfl : names = ["x"] := by
      match names with
      | [name] => cases hnames; rfl
      | [] | _ :: _ :: _ => cases hnames
    exact ⟨t₁, t₂, hend, hend', hgains, hgains', hreplies 9 .silent ["(f 7)", "f"]⟩

end Session

end MiniScheme
