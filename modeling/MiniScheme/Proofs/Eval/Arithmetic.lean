import MiniScheme.Eval.Procedure
import MiniScheme.Proofs.Eval.Tame
import MiniScheme.Proofs.Word
import Mathlib

namespace MiniScheme

open EvalM

theorem EvalM.pure_injective {α : Type} : Function.Injective (pure : α → EvalM α) := by
  intro a b h
  have hrun := congrFun (congrFun h .silent) .empty
  cases hrun
  rfl

theorem EvalM.fail_ne_pure {α : Type} (e : Error) (a : α) : (fail e : EvalM α) ≠ pure a := by
  intro h
  have hrun := congrFun (congrFun h .silent) .empty
  cases hrun

namespace Procedure

variable {vs others : List Value} {first : Value} {p : Procedure}

/-- The procedures that take all their arguments for integers. -/
def isNumeric : Procedure → Bool
  | add | subtract | multiply | divide | least | greatest | compare _ => true
  | _ => false

theorem integersOf_integers (xs : List Int64) :
    integersOf (xs.map Value.integer) = pure xs := by
  have hxs : (xs.map Value.integer).mapM Value.toInteger = .ok xs := by
    induction xs with
    | nil => rfl
    | cons x xs ih => rw [List.map_cons, mapM_cons_eq, ih]; rfl
  rw [integersOf, hxs]
  rfl

theorem toInteger_of_not_number {v : Value} (h : v.isNumber = false) :
    v.toInteger = .error .notANumber := by
  fun_cases Value.toInteger v with
  | case1 n => cases h
  | case2 => rfl

theorem exists_integer_of_number {v : Value} (h : v.isNumber = true) : ∃ x, v = .integer x := by
  fun_cases Value.isNumber v with
  | case1 x => exact ⟨x, rfl⟩
  | case2 => simp [Value.isNumber] at h

theorem exists_integers_or (vs : List Value) :
    (∃ xs : List Int64, vs = xs.map Value.integer) ∨ ∃ v ∈ vs, v.isNumber = false := by
  induction vs with
  | nil => exact .inl ⟨[], rfl⟩
  | cons v vs ih =>
    cases hv : v.isNumber with
    | false => exact .inr ⟨v, List.mem_cons_self, hv⟩
    | true =>
      obtain ⟨x, rfl⟩ := exists_integer_of_number hv
      obtain ⟨xs, rfl⟩ | ⟨w, hw, hn⟩ := ih
      · exact .inl ⟨x :: xs, rfl⟩
      · exact .inr ⟨w, List.mem_cons_of_mem _ hw, hn⟩

theorem integersOf_of_not_number (h : ∃ v ∈ vs, v.isNumber = false) :
    integersOf vs = fail .notANumber := by
  have hvs : vs.mapM Value.toInteger = .error .notANumber := by
    induction vs with
    | nil => simp at h
    | cons v vs ih =>
      rw [mapM_cons_eq]
      cases hv : v.isNumber with
      | false => rw [toInteger_of_not_number hv]
      | true =>
        obtain ⟨x, rfl⟩ := exists_integer_of_number hv
        rw [List.exists_mem_cons_iff] at h
        rw [ih (h.resolve_left (by simp [hv]))]
        rfl
  rw [integersOf, hvs]
  rfl

/-- Whether the first argument is looked at by itself or not, all of them are before anything is
computed. -/
theorem toInteger_bind_of_not_number (h : ∃ v ∈ first :: others, v.isNumber = false)
    (f : Int64 → List Int64 → EvalM Value) :
    (do let x ← ofExcept first.toInteger
        let ys ← integersOf others
        f x ys) = fail .notANumber := by
  cases hv : first.isNumber with
  | false =>
    rw [toInteger_of_not_number hv]
    rfl
  | true =>
    obtain ⟨x, rfl⟩ := exists_integer_of_number hv
    rw [List.exists_mem_cons_iff] at h
    rw [integersOf_of_not_number (h.resolve_left (by simp [hv]))]
    rfl

theorem run_of_not_number (hp : p.isNumeric = true) (h : ∃ v ∈ vs, v.isNumber = false) :
    p.run vs = fail .notANumber := by
  cases p with
  | add | multiply | compare =>
    rw [run, integersOf_of_not_number h]
    rfl
  | subtract | divide | least | greatest =>
    match vs with
    | [] => simp at h
    | first :: others => exact toInteger_bind_of_not_number h _
  | cons | car | cdr | setCar | setCdr | list | listTail | listRef | magnitude | test => cases hp

end Procedure

namespace Arithmetic

variable {x : Int64} {xs ys : List Int64}

/-- The exact numbers that 64-bit integers stand for. -/
def exactValues (xs : List Int64) : List ℤ := xs.map Int64.toInt

theorem exactValues_cons (x : Int64) (xs : List Int64) :
    exactValues (x :: xs) = x.toInt :: exactValues xs := rfl

theorem exactValues_append (xs ys : List Int64) :
    exactValues (xs ++ ys) = exactValues xs ++ exactValues ys :=
  List.map_append

/-- To reduce after each step comes to the same as to reduce the exact result once. -/
theorem foldl_eq_ofInt {op : Int64 → Int64 → Int64} {opExact : ℤ → ℤ → ℤ}
    (h : ∀ a b, Int64.ofInt (opExact a b) = op (Int64.ofInt a) (Int64.ofInt b)) (z : ℤ)
    (xs : List Int64) :
    xs.foldl op (Int64.ofInt z) = Int64.ofInt ((exactValues xs).foldl opExact z) := by
  induction xs generalizing z with
  | nil => rfl
  | cons x xs ih =>
    have hstep : op (Int64.ofInt z) x = Int64.ofInt (opExact z x.toInt) := by
      rw [h, Int64.ofInt_toInt]
    rw [List.foldl_cons, hstep, ih, exactValues_cons, List.foldl_cons]

theorem sum_eq (xs : List Int64) : sum xs = Int64.ofInt (exactValues xs).sum := by
  rw [List.sum_eq_foldl]
  exact foldl_eq_ofInt Int64.ofInt_add 0 xs

theorem product_eq (xs : List Int64) : product xs = Int64.ofInt (exactValues xs).prod := by
  rw [List.prod_eq_foldl]
  exact foldl_eq_ofInt Int64.ofInt_mul 1 xs

theorem foldl_sub_eq (z : ℤ) (zs : List ℤ) : zs.foldl (· - ·) z = z - zs.sum := by
  induction zs generalizing z with
  | nil => simp
  | cons y zs ih => rw [List.foldl_cons, ih, List.sum_cons, sub_sub]

theorem difference_eq (x : Int64) (hys : ys ≠ []) :
    difference x ys = Int64.ofInt (x.toInt - (exactValues ys).sum) := by
  obtain ⟨y, ys, rfl⟩ := List.exists_cons_of_ne_nil hys
  have h := foldl_eq_ofInt Int64.ofInt_sub x.toInt (y :: ys)
  rwa [Int64.ofInt_toInt, foldl_sub_eq] at h

theorem difference_nil (x : Int64) : difference x [] = difference 0 [x] :=
  (Int64.zero_sub x).symm

theorem sum_perm (h : xs.Perm ys) : sum xs = sum ys := by
  rw [sum_eq, sum_eq, exactValues, exactValues, (h.map Int64.toInt).sum_eq]

theorem product_perm (h : xs.Perm ys) : product xs = product ys := by
  rw [product_eq, product_eq, exactValues, exactValues, (h.map Int64.toInt).prod_eq]

theorem sum_append (xs ys : List Int64) : sum (xs ++ ys) = sum [sum xs, sum ys] := by
  have hpair : sum [sum xs, sum ys] = sum xs + sum ys := by simp [sum]
  rw [hpair, sum_eq, sum_eq xs, sum_eq ys, exactValues_append, List.sum_append, Int64.ofInt_add]

theorem product_append (xs ys : List Int64) :
    product (xs ++ ys) = product [product xs, product ys] := by
  have hpair : product [product xs, product ys] = product xs * product ys := by simp [product]
  rw [hpair, product_eq, product_eq xs, product_eq ys, exactValues_append, List.prod_append,
    Int64.ofInt_mul]

/-- An operation that chooses one of two numbers, and one that is related to both, chooses from a
list one that is related to all. -/
theorem foldl_chooses {op : Int64 → Int64 → Int64} {r : ℤ → ℤ → Prop} [Std.Refl r] [IsTrans ℤ r]
    (hop : ∀ x y, op x y = x ∨ op x y = y)
    (hr : ∀ x y, r (op x y).toInt x.toInt ∧ r (op x y).toInt y.toInt) (x : Int64)
    (xs : List Int64) :
    xs.foldl op x ∈ x :: xs ∧ ∀ y ∈ x :: xs, r (xs.foldl op x).toInt y.toInt := by
  induction xs generalizing x with
  | nil => exact ⟨List.mem_cons_self, List.forall_mem_singleton.2 (refl_of r _)⟩
  | cons y ys ih =>
    obtain ⟨hmem, hall⟩ := ih (op x y)
    obtain ⟨hop', hys⟩ := List.forall_mem_cons.1 hall
    obtain ⟨hx, hy⟩ := hr x y
    rw [List.foldl_cons]
    refine ⟨?_, List.forall_mem_cons.2 ⟨trans_of r hop' hx,
      List.forall_mem_cons.2 ⟨trans_of r hop' hy, hys⟩⟩⟩
    obtain heq | hmem := List.mem_cons.1 hmem
    · rw [heq]
      rcases hop x y with h | h <;> simp [h]
    · exact List.mem_cons_of_mem x (List.mem_cons_of_mem y hmem)

theorem least_chooses (x : Int64) (xs : List Int64) :
    least x xs ∈ x :: xs ∧ ∀ y ∈ x :: xs, (least x xs).toInt ≤ y.toInt := by
  have hmin (x y : Int64) : min x y = if x ≤ y then x else y := rfl
  refine foldl_chooses (r := (· ≤ ·)) (fun x y ↦ ?_) (fun x y ↦ ?_) x xs
  · rw [hmin]
    split <;> simp
  · rw [hmin]
    split <;> grind [Int64.le_iff_toInt_le]

theorem greatest_chooses (x : Int64) (xs : List Int64) :
    greatest x xs ∈ x :: xs ∧ ∀ y ∈ x :: xs, (greatest x xs).toInt ≥ y.toInt := by
  have hmax (x y : Int64) : max x y = if x ≤ y then y else x := rfl
  refine foldl_chooses (r := (· ≥ ·)) (fun x y ↦ ?_) (fun x y ↦ ?_) x xs
  · rw [hmax]
    split <;> simp
  · rw [hmax]
    split <;> grind [Int64.le_iff_toInt_le]

end Arithmetic

namespace Procedure

variable (x : Int64) (xs : List Int64)

theorem run_add : add.run (xs.map Value.integer) = pure (.integer (Arithmetic.sum xs)) := by
  rw [run, integersOf_integers]
  rfl

theorem run_multiply :
    multiply.run (xs.map Value.integer) = pure (.integer (Arithmetic.product xs)) := by
  rw [run, integersOf_integers]
  rfl

theorem run_subtract : subtract.run ((x :: xs).map Value.integer) =
    pure (.integer (Arithmetic.difference x xs)) := by
  rw [List.map_cons, run, integersOf_integers]
  rfl

theorem run_least : least.run ((x :: xs).map Value.integer) =
    pure (.integer (Arithmetic.least x xs)) := by
  rw [List.map_cons, run, integersOf_integers]
  rfl

theorem run_greatest : greatest.run ((x :: xs).map Value.integer) =
    pure (.integer (Arithmetic.greatest x xs)) := by
  rw [List.map_cons, run, integersOf_integers]
  rfl

section Lists

variable {p : Procedure} {op : List Int64 → Int64} {vs ws : List Value}

theorem run_perm (hp : p.isNumeric = true)
    (hrun : ∀ xs : List Int64, p.run (xs.map Value.integer) = pure (.integer (op xs)))
    (hop : ∀ xs ys, xs.Perm ys → op xs = op ys) (h : vs.Perm ws) : p.run vs = p.run ws := by
  obtain ⟨xs, rfl⟩ | ⟨v, hv, hn⟩ := exists_integers_or vs
  · obtain ⟨ys, rfl⟩ | ⟨w, hw, hn⟩ := exists_integers_or ws
    · have hinj : Function.Injective Value.integer := fun x y hxy ↦ by cases hxy; rfl
      rw [hrun, hrun, hop xs ys ((List.map_perm_map_iff hinj).1 h)]
    · obtain ⟨x, -, rfl⟩ := List.mem_map.1 (h.mem_iff.2 hw)
      cases hn
  · rw [run_of_not_number hp ⟨v, hv, hn⟩, run_of_not_number hp ⟨v, h.mem_iff.1 hv, hn⟩]

theorem run_append (hp : p.isNumeric = true)
    (hrun : ∀ xs : List Int64, p.run (xs.map Value.integer) = pure (.integer (op xs)))
    (hop : ∀ xs ys, op (xs ++ ys) = op [op xs, op ys]) (vs ws : List Value) :
    p.run (vs ++ ws) = (do
      let v ← p.run vs
      let w ← p.run ws
      p.run [v, w]) := by
  obtain ⟨xs, rfl⟩ | ⟨v, hv, hn⟩ := exists_integers_or vs
  · obtain ⟨ys, rfl⟩ | ⟨w, hw, hn⟩ := exists_integers_or ws
    · have hpair : p.run [.integer (op xs), .integer (op ys)] = _ := hrun [op xs, op ys]
      rw [← List.map_append, hrun, hrun, hrun, hop, pure_bind, pure_bind, hpair]
    · rw [run_of_not_number hp ⟨w, List.mem_append_right _ hw, hn⟩, hrun,
        run_of_not_number hp ⟨w, hw, hn⟩]
      rfl
  · rw [run_of_not_number hp ⟨v, List.mem_append_left _ hv, hn⟩,
      run_of_not_number hp ⟨v, hv, hn⟩]
    rfl

theorem run_singleton (hp : p.isNumeric = true) {n : Int64}
    (h : ∀ x, p.run [.integer x] = p.run [.integer n, .integer x]) (v : Value) :
    p.run [v] = p.run [.integer n, v] := by
  cases hv : v.isNumber with
  | true =>
    obtain ⟨x, rfl⟩ := exists_integer_of_number hv
    exact h x
  | false =>
    rw [run_of_not_number hp ⟨v, List.mem_cons_self, hv⟩,
      run_of_not_number hp ⟨v, List.mem_cons_of_mem _ List.mem_cons_self, hv⟩]

end Lists

/-- The arithmetic of any number of arguments is that of exact numbers, reduced once at the end: so
the sum and the product depend neither on the order of the arguments nor on how they are grouped.
The least and the greatest number are among the arguments. All arguments have to be numbers. -/
theorem run_arithmetic_exact :
    (∀ p ∈ [add, multiply, subtract, least, greatest], ∀ vs : List Value,
      (∃ v ∈ vs, v.isNumber = false) → p.run vs = fail .notANumber) ∧
    (∀ xs : List Int64, ∃ n, Represents n (Arithmetic.exactValues xs).sum ∧
      add.run (xs.map Value.integer) = pure (.integer n)) ∧
    (∀ xs : List Int64, ∃ n, Represents n (Arithmetic.exactValues xs).prod ∧
      multiply.run (xs.map Value.integer) = pure (.integer n)) ∧
    (∀ p ∈ [add, multiply], (∀ vs ws : List Value, vs.Perm ws → p.run vs = p.run ws) ∧
      ∀ vs ws : List Value, p.run (vs ++ ws) = (do
        let v ← p.run vs
        let w ← p.run ws
        p.run [v, w])) ∧
    (∀ (x : Int64) (ys : List Int64), ys ≠ [] →
      ∃ n, Represents n (x.toInt - (Arithmetic.exactValues ys).sum) ∧
        subtract.run ((x :: ys).map Value.integer) = pure (.integer n)) ∧
    (∀ v : Value, subtract.run [v] = subtract.run [.integer 0, v]) ∧
    (∀ (x : Int64) (xs : List Int64), ∃ n ∈ x :: xs, (∀ y ∈ x :: xs, n.toInt ≤ y.toInt) ∧
      least.run ((x :: xs).map Value.integer) = pure (.integer n)) ∧
    ∀ (x : Int64) (xs : List Int64), ∃ n ∈ x :: xs, (∀ y ∈ x :: xs, n.toInt ≥ y.toInt) ∧
      greatest.run ((x :: xs).map Value.integer) = pure (.integer n) := by
  refine ⟨fun p hp vs h ↦ ?_, fun xs ↦ ?_, fun xs ↦ ?_, fun p hp ↦ ?_, fun x ys hys ↦ ?_,
    run_singleton rfl fun x ↦ ?_, fun x xs ↦ ?_, fun x xs ↦ ?_⟩
  · have hnumeric : ∀ p ∈ [add, multiply, subtract, least, greatest], p.isNumeric = true := by
      decide
    exact run_of_not_number (hnumeric p hp) h
  · refine ⟨_, ?_, run_add xs⟩
    rw [Arithmetic.sum_eq]
    exact represents_ofInt _
  · refine ⟨_, ?_, run_multiply xs⟩
    rw [Arithmetic.product_eq]
    exact represents_ofInt _
  · simp only [List.mem_cons, List.not_mem_nil, or_false] at hp
    obtain rfl | rfl := hp
    · exact ⟨fun vs ws ↦ run_perm rfl run_add fun _ _ ↦ Arithmetic.sum_perm,
        run_append rfl run_add Arithmetic.sum_append⟩
    · exact ⟨fun vs ws ↦ run_perm rfl run_multiply fun _ _ ↦ Arithmetic.product_perm,
        run_append rfl run_multiply Arithmetic.product_append⟩
  · refine ⟨_, ?_, run_subtract x ys⟩
    rw [Arithmetic.difference_eq x hys]
    exact represents_ofInt _
  · have hnegation : subtract.run [.integer x] = _ := run_subtract x []
    have hdifference : subtract.run [.integer 0, .integer x] = _ := run_subtract 0 [x]
    rw [hnegation, hdifference, Arithmetic.difference_nil]
  · obtain ⟨hmem, hall⟩ := Arithmetic.least_chooses x xs
    exact ⟨_, hmem, hall, run_least x xs⟩
  · obtain ⟨hmem, hall⟩ := Arithmetic.greatest_chooses x xs
    exact ⟨_, hmem, hall, run_greatest x xs⟩

theorem run_arithmetic_exact_wrapping :
    add.run [.integer Int64.maxValue, .integer 1] = pure (.integer Int64.minValue) ∧
    multiply.run [] = pure (.integer 1) ∧
    subtract.run [.integer Int64.minValue] =
      subtract.run [.integer 0, .integer Int64.minValue] ∧
    (∃ n, Represents n (-2 ^ 63 - (1 + 2 ^ 63 - 1)) ∧
      subtract.run [.integer Int64.minValue, .integer 1, .integer Int64.maxValue] =
        pure (.integer n)) ∧
    add.run [.integer 1, .nil] = fail .notANumber ∧
    multiply.run [.integer 2, .integer 3, .integer 5] =
      multiply.run [.integer 5, .integer 2, .integer 3] ∧
    ∃ n ∈ [7, -3, Int64.maxValue], (∀ y ∈ [7, -3, Int64.maxValue], n.toInt ≤ y.toInt) ∧
      least.run [.integer 7, .integer (-3), .integer Int64.maxValue] = pure (.integer n) := by
  obtain ⟨hfails, hsum, hproduct, horder, hdifference, hnegation, hleast, -⟩ :=
    run_arithmetic_exact
  obtain ⟨n, hn, hadd⟩ := hsum [Int64.maxValue, 1]
  obtain ⟨m, hm, hmultiply⟩ := hproduct []
  have hn' : n = Int64.minValue := hn.unique ⟨by decide, by decide, by decide⟩
  have hm' : m = 1 := hm.unique ⟨by decide, by decide, by decide⟩
  subst hn' hm'
  refine ⟨hadd, hmultiply, hnegation _, ?_, ?_, ?_, hleast 7 [-3, Int64.maxValue]⟩
  · exact hdifference Int64.minValue [1, Int64.maxValue] (List.cons_ne_nil _ _)
  · exact hfails add (by decide) _ ⟨.nil, by decide, rfl⟩
  · exact (horder multiply (by decide)).1 _ _ (by decide)

end Procedure

end MiniScheme
