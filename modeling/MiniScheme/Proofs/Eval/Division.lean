import MiniScheme.Proofs.Eval.Arithmetic

namespace MiniScheme

open EvalM

namespace Arithmetic

variable {x y : Int64} {ys zs : List Int64}

/-- Division towards zero by one number after another is division by their product. -/
theorem tdiv_tdiv (a b c : ℤ) : (a.tdiv b).tdiv c = a.tdiv (b * c) := by
  obtain ⟨l, rfl | rfl⟩ := a.eq_nat_or_neg <;> obtain ⟨m, rfl | rfl⟩ := b.eq_nat_or_neg <;>
    obtain ⟨n, rfl | rfl⟩ := c.eq_nat_or_neg <;>
    simp only [Int.neg_tdiv, Int.tdiv_neg, Int.neg_mul, Int.mul_neg, neg_neg, ← Int.ofNat_tdiv,
      ← Int.natCast_mul, Nat.div_div_eq_div_mul]

/-- Division towards zero of 64-bit integers. The one quotient that they cannot hold wraps to the
least of them. -/
def wrappingQuotient (a b : ℤ) : ℤ := if a = -2 ^ 63 ∧ b = -1 then -2 ^ 63 else a.tdiv b

theorem toInt_div (x y : Int64) : (x / y).toInt = wrappingQuotient x.toInt y.toInt := by
  rw [wrappingQuotient]
  split
  · next h =>
    have hx : x = Int64.minValue := Int64.toInt_inj.1 h.1
    have hy : y = -1 := Int64.toInt_inj.1 h.2
    rw [hx, hy]
    decide
  · next h =>
    by_cases hx : x = Int64.minValue
    · have hy : y ≠ -1 := fun hy ↦ h (by rw [hx, hy]; decide)
      exact Int64.toInt_div_of_ne_right x y hy
    · exact Int64.toInt_div_of_ne_left x y hx

theorem div_ne_minValue (hx : x ≠ Int64.minValue) (y : Int64) : x / y ≠ Int64.minValue := by
  intro h
  have hle := Int.natAbs_tdiv_le_natAbs x.toInt y.toInt
  rw [← Int64.toInt_div_of_ne_left x y hx, h, Int64.toInt_minValue] at hle
  have hlow := x.le_toInt
  have hhigh := x.toInt_lt
  apply hx
  apply Int64.toInt_inj.1
  rw [Int64.toInt_minValue]
  omega

/-- A number that is not the least of all is divided exactly, so the quotients can be put
together. -/
theorem toInt_foldl_div (hx : x ≠ Int64.minValue) (ys : List Int64) :
    (ys.foldl (· / ·) x).toInt = x.toInt.tdiv (exactValues ys).prod := by
  induction ys generalizing x with
  | nil => simp [exactValues]
  | cons y ys ih =>
    rw [List.foldl_cons, ih (div_ne_minValue hx y), Int64.toInt_div_of_ne_left x y hx, tdiv_tdiv,
      exactValues_cons, List.prod_cons]

theorem toInt_foldl_div_wrapping (x : Int64) (ys : List Int64) :
    (ys.foldl (· / ·) x).toInt = (exactValues ys).foldl wrappingQuotient x.toInt := by
  induction ys generalizing x with
  | nil => rfl
  | cons y ys ih => rw [List.foldl_cons, ih, toInt_div, exactValues_cons, List.foldl_cons]

theorem foldlM_divide_eq (x : Int64) (ys : List Int64) :
    ys.foldlM divide x = if 0 ∈ ys then .error .divisionByZero else .ok (ys.foldl (· / ·) x) := by
  induction ys generalizing x with
  | nil => rfl
  | cons y ys ih =>
    rw [List.foldlM_cons, divide]
    by_cases hy : y = 0
    · simp [hy]
      rfl
    · rw [if_neg hy]
      change ys.foldlM divide (x / y) = _
      rw [ih]
      simp [Ne.symm hy]

theorem quotient_eq (x : Int64) (hys : ys ≠ []) : quotient x ys = ys.foldlM divide x := by
  obtain ⟨y, ys, rfl⟩ := List.exists_cons_of_ne_nil hys
  rfl

end Arithmetic

namespace Procedure

variable {x : Int64} {ys zs : List Int64}

theorem run_divide (x : Int64) (ys : List Int64) : divide.run ((x :: ys).map Value.integer) =
    (do return .integer (← ofExcept (Arithmetic.quotient x ys))) := by
  rw [List.map_cons, run, integersOf_integers]
  simp only [Value.toInteger, EvalM.ofExcept, pure_bind]

theorem run_divide_of_mem (x : Int64) (h : 0 ∈ ys) :
    divide.run ((x :: ys).map Value.integer) = fail .divisionByZero := by
  rw [run_divide, Arithmetic.quotient_eq x (List.ne_nil_of_mem h), Arithmetic.foldlM_divide_eq,
    if_pos h]
  rfl

theorem run_divide_of_notMem (x : Int64) (hys : ys ≠ []) (h : 0 ∉ ys) :
    divide.run ((x :: ys).map Value.integer) = pure (.integer (ys.foldl (· / ·) x)) := by
  rw [run_divide, Arithmetic.quotient_eq x hys, Arithmetic.foldlM_divide_eq, if_neg h]
  rfl

theorem run_divide_eq_fail_iff (x : Int64) (hys : ys ≠ []) :
    divide.run ((x :: ys).map Value.integer) = fail .divisionByZero ↔ 0 ∈ ys := by
  refine ⟨fun h ↦ ?_, run_divide_of_mem x⟩
  by_contra hno
  rw [run_divide_of_notMem x hys hno] at h
  exact fail_ne_pure _ _ h.symm

/-- The order of the divisors does not matter, since it does not to their product. -/
theorem run_divide_perm (hx : x ≠ Int64.minValue) (h : ys.Perm zs) :
    divide.run ((x :: ys).map Value.integer) = divide.run ((x :: zs).map Value.integer) := by
  by_cases hys : ys = []
  · subst hys
    rw [h.nil_eq]
  · have hzs : zs ≠ [] := fun hzs ↦ hys (by subst hzs; exact h.eq_nil)
    by_cases hzero : 0 ∈ ys
    · rw [run_divide_of_mem x hzero, run_divide_of_mem x (h.mem_iff.1 hzero)]
    · have hfoldl : ys.foldl (· / ·) x = zs.foldl (· / ·) x := by
        apply Int64.toInt_inj.1
        rw [Arithmetic.toInt_foldl_div hx, Arithmetic.toInt_foldl_div hx, Arithmetic.exactValues,
          Arithmetic.exactValues, (h.map Int64.toInt).prod_eq]
      rw [run_divide_of_notMem x hys hzero, hfoldl,
        run_divide_of_notMem x hzs fun hz ↦ hzero (h.mem_iff.2 hz)]

theorem run_divide_singleton (x : Int64) :
    divide.run [.integer x] = divide.run [.integer 1, .integer x] := by
  have hinverse : divide.run [.integer x] = _ := run_divide x []
  have hquotient : divide.run [.integer 1, .integer x] = _ := run_divide 1 [x]
  rw [hinverse, hquotient, Arithmetic.quotient_eq 1 (List.cons_ne_nil x []), List.foldlM_cons]
  simp [Arithmetic.quotient]

/-- Division fails exactly where a divisor is zero, and never before all arguments are known to be
numbers. It is division towards zero of the first number by the exact product of the others, in
whatever order they stand, unless the first number is the least of all: then each quotient is the
exact one or wraps to the least number again. Division of one number is its inverse. -/
theorem run_divide_exact :
    (∀ (x : Int64) (ys : List Int64), ys ≠ [] →
      (divide.run ((x :: ys).map Value.integer) = fail .divisionByZero ↔ 0 ∈ ys) ∧
      (0 ∉ ys → ∃ q : Int64, divide.run ((x :: ys).map Value.integer) = pure (.integer q) ∧
        (x ≠ Int64.minValue → q.toInt = x.toInt.tdiv (Arithmetic.exactValues ys).prod) ∧
        q.toInt = (Arithmetic.exactValues ys).foldl Arithmetic.wrappingQuotient x.toInt)) ∧
    (∀ (x : Int64) (ys zs : List Int64), x ≠ Int64.minValue → ys.Perm zs →
      divide.run ((x :: ys).map Value.integer) = divide.run ((x :: zs).map Value.integer)) ∧
    (∀ v : Value, divide.run [v] = divide.run [.integer 1, v]) ∧
    (∀ x : Int64, (∃ e, divide.run [.integer x] = fail e) ↔ x = 0) ∧
    ∀ vs : List Value, (∃ v ∈ vs, v.isNumber = false) → divide.run vs = fail .notANumber := by
  refine ⟨fun x ys hys ↦ ⟨run_divide_eq_fail_iff x hys, fun hzero ↦ ?_⟩,
    fun x ys zs ↦ run_divide_perm, run_singleton rfl run_divide_singleton, fun x ↦ ?_,
    fun vs ↦ run_of_not_number rfl⟩
  · exact ⟨_, run_divide_of_notMem x hys hzero, fun hx ↦ Arithmetic.toInt_foldl_div hx ys,
      Arithmetic.toInt_foldl_div_wrapping x ys⟩
  · rw [run_divide_singleton]
    constructor
    · rintro ⟨e, he⟩
      by_contra hx
      have hzero : 0 ∉ [x] := by simp [Ne.symm hx]
      have hrun := run_divide_of_notMem 1 (List.cons_ne_nil x []) hzero
      exact fail_ne_pure e _ (he.symm.trans hrun)
    · rintro rfl
      exact ⟨_, run_divide_of_mem 1 (List.mem_singleton.2 rfl)⟩

theorem run_divide_exact_least :
    divide.run [.integer 1, .integer 0, .nil] = fail .notANumber ∧
    divide.run [.integer 1, .integer 5, .integer 0] = fail .divisionByZero ∧
    (∃ q : Int64, divide.run [.integer (-7), .integer Int64.minValue, .integer Int64.minValue] =
      pure (.integer q) ∧ q.toInt = (-7 : ℤ).tdiv (2 ^ 126)) ∧
    divide.run [.integer (-7), .integer 2, .integer (-3)] =
      divide.run [.integer (-7), .integer (-3), .integer 2] ∧
    (∃ q : Int64, divide.run [.integer Int64.minValue, .integer (-1), .integer 2] =
      pure (.integer q) ∧ q.toInt = -2 ^ 62) ∧
    (∃ q : Int64, divide.run [.integer Int64.minValue, .integer 2, .integer (-1)] =
      pure (.integer q) ∧ q.toInt = 2 ^ 62) ∧
    ∃ e, divide.run [.integer 0] = fail e := by
  obtain ⟨hdivides, horder, -, hinverse, hfails⟩ := run_divide_exact
  have hne (y z : Int64) : [y, z] ≠ [] := List.cons_ne_nil _ _
  refine ⟨hfails _ ⟨.nil, by decide, rfl⟩, (hdivides 1 [5, 0] (hne _ _)).1.2 (by decide), ?_,
    horder (-7) [2, -3] [-3, 2] (by decide) (by decide), ?_, ?_, (hinverse 0).2 rfl⟩
  · obtain ⟨q, hq, hproduct, -⟩ :=
      (hdivides (-7) [Int64.minValue, Int64.minValue] (hne _ _)).2 (by decide)
    exact ⟨q, hq, hproduct (by decide)⟩
  · obtain ⟨q, hq, -, hsteps⟩ := (hdivides Int64.minValue [-1, 2] (hne _ _)).2 (by decide)
    exact ⟨q, hq, hsteps.trans (by decide)⟩
  · obtain ⟨q, hq, -, hsteps⟩ := (hdivides Int64.minValue [2, -1] (hne _ _)).2 (by decide)
    exact ⟨q, hq, hsteps.trans (by decide)⟩

end Procedure

end MiniScheme
