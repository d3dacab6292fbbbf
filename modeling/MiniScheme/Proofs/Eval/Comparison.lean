import MiniScheme.Proofs.Eval.Arithmetic

namespace MiniScheme

open EvalM

namespace Comparison

variable {c : Comparison} {xs : List Int64}

/-- The relation of exact numbers that a comparison is about. -/
def Relates : Comparison → ℤ → ℤ → Prop
  | less => (· < ·)
  | atMost => (· ≤ ·)
  | greater => (· > ·)
  | atLeast => (· ≥ ·)
  | equal => (· = ·)

theorem holds_iff {x y : Int64} : c.holds x y = true ↔ c.Relates x.toInt y.toInt := by
  cases c <;> simp [holds, Relates, Int64.lt_iff_toInt_lt, Int64.le_iff_toInt_le, Int64.toInt_inj]

theorem Relates.trans {l m n : ℤ} (h : c.Relates l m) (h' : c.Relates m n) : c.Relates l n := by
  cases c with
  | less => exact Int.lt_trans h h'
  | atMost => exact Int.le_trans h h'
  | greater => exact Int.lt_trans h' h
  | atLeast => exact Int.le_trans h' h
  | equal => exact Eq.trans h h'

instance (c : Comparison) : Trans c.Relates c.Relates c.Relates := ⟨Relates.trans⟩

/-- The numbers stand in order: each one is related to every later one, and not only to the next. -/
def Orders (c : Comparison) (xs : List Int64) : Prop :=
  (xs.map Int64.toInt).Pairwise c.Relates

theorem holdsAlong_iff_isChain :
    c.holdsAlong xs = true ↔ (xs.map Int64.toInt).IsChain c.Relates := by
  fun_induction holdsAlong c xs with
  | case1 x y rest ih =>
    rw [Bool.and_eq_true, holds_iff, ih]
    exact List.isChain_cons_cons.symm
  | case2 xs hshort =>
    match xs with
    | [] => simp
    | [x] => simp
    | x :: y :: rest => exact absurd rfl (hshort x y rest)

/-- The scan of neighbours is enough, since the relations are transitive. -/
theorem holdsAlong_iff : c.holdsAlong xs = true ↔ c.Orders xs := by
  rw [holdsAlong_iff_isChain, List.isChain_iff_pairwise, Orders]

theorem orders_reverse {c d : Comparison} (h : ∀ m n, c.Relates m n ↔ d.Relates n m)
    (xs : List Int64) : c.Orders xs ↔ d.Orders xs.reverse := by
  rw [Orders, Orders, List.map_reverse, List.pairwise_reverse]
  exact List.Pairwise.iff h

theorem orders_equal_iff : Orders .equal xs ↔ Orders .atMost xs ∧ Orders .atLeast xs := by
  rw [Orders, Orders, Orders, ← List.pairwise_and_iff]
  exact List.Pairwise.iff fun m n ↦ le_antisymm_iff

end Comparison

theorem Value.boolean_injective : Function.Injective Value.boolean := by decide

namespace Procedure

variable {c d : Comparison} {vs : List Value}

theorem run_compare (c : Comparison) (xs : List Int64) :
    (compare c).run (xs.map Value.integer) = pure (.boolean (c.holdsAlong xs)) := by
  rw [run, integersOf_integers]
  rfl

theorem run_compare_eq_true_iff (c : Comparison) (xs : List Int64) :
    (compare c).run (xs.map Value.integer) = pure (.boolean true) ↔ c.Orders xs := by
  rw [run_compare, pure_injective.eq_iff, Value.boolean_injective.eq_iff,
    Comparison.holdsAlong_iff]

theorem run_compare_eq_fail_iff (c : Comparison) (vs : List Value) :
    (compare c).run vs = fail .notANumber ↔ ∃ v ∈ vs, v.isNumber = false := by
  refine ⟨fun h ↦ ?_, run_of_not_number rfl⟩
  obtain ⟨xs, rfl⟩ | hn := exists_integers_or vs
  · rw [run_compare] at h
    exact absurd h.symm (fail_ne_pure _ _)
  · exact hn

theorem run_compare_reverse (h : ∀ m n, c.Relates m n ↔ d.Relates n m) (vs : List Value) :
    (compare c).run vs = (compare d).run vs.reverse := by
  obtain ⟨xs, rfl⟩ | ⟨v, hv, hn⟩ := exists_integers_or vs
  · have hholds : c.holdsAlong xs = d.holdsAlong xs.reverse := by
      rw [Bool.eq_iff_iff, Comparison.holdsAlong_iff, Comparison.holdsAlong_iff,
        Comparison.orders_reverse h]
    rw [← List.map_reverse, run_compare, run_compare, hholds]
  · rw [run_of_not_number rfl ⟨v, hv, hn⟩,
      run_of_not_number rfl ⟨v, List.mem_reverse.2 hv, hn⟩]

theorem run_compare_equal_iff (vs : List Value) :
    (compare .equal).run vs = pure (.boolean true) ↔
      (compare .atMost).run vs = pure (.boolean true) ∧
        (compare .atLeast).run vs = pure (.boolean true) := by
  obtain ⟨xs, rfl⟩ | hn := exists_integers_or vs
  · simp only [run_compare_eq_true_iff]
    exact Comparison.orders_equal_iff
  · have hno (c : Comparison) : (compare c).run vs ≠ pure (.boolean true) := by
      rw [run_of_not_number rfl hn]
      exact fail_ne_pure _ _
    exact ⟨fun h ↦ absurd h (hno _), fun h ↦ absurd h.1 (hno _)⟩

/-- A comparison of any number of arguments fails exactly if one of them is not a number, wherever
it stands. If all are, it says whether each of them is related to every later one. So numbers fall
if they rise the other way round, and they are equal if they neither rise nor fall. -/
theorem run_compare_orders :
    (∀ (c : Comparison) (vs : List Value),
      (compare c).run vs = fail .notANumber ↔ ∃ v ∈ vs, v.isNumber = false) ∧
    (∀ (c : Comparison) (xs : List Int64), ∃ b : Bool,
      (compare c).run (xs.map Value.integer) = pure (.boolean b) ∧
        (b = true ↔ (xs.map Int64.toInt).Pairwise c.Relates)) ∧
    (∀ vs : List Value, (compare .greater).run vs = (compare .less).run vs.reverse) ∧
    (∀ vs : List Value, (compare .atLeast).run vs = (compare .atMost).run vs.reverse) ∧
    ∀ vs : List Value, (compare .equal).run vs = pure (.boolean true) ↔
      (compare .atMost).run vs = pure (.boolean true) ∧
        (compare .atLeast).run vs = pure (.boolean true) := by
  refine ⟨run_compare_eq_fail_iff, fun c xs ↦ ?_, run_compare_reverse fun m n ↦ Iff.rfl,
    run_compare_reverse fun m n ↦ Iff.rfl, run_compare_equal_iff⟩
  exact ⟨c.holdsAlong xs, run_compare c xs, Comparison.holdsAlong_iff⟩

end Procedure

end MiniScheme
