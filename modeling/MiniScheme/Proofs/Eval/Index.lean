import MiniScheme.Eval.Procedure
import MiniScheme.Proofs.Store.ProperList

namespace MiniScheme

/-- Indices that are not negative add up as numbers if their sum fits into a word. -/
theorem index_add {i j : Int64} (hi : 0 ≤ i) (hj : 0 ≤ j) (hlt : i.toInt + j.toInt < 2 ^ 63) :
    0 ≤ i + j ∧ (i + j).toInt.toNat = i.toInt.toNat + j.toInt.toNat := by
  rw [Int64.le_iff_toInt_le, Int64.toInt_zero] at hi hj
  have hsum : (i + j).toInt = i.toInt + j.toInt := by
    rw [Int64.toInt_add, Int.bmod_eq_of_le] <;> omega
  rw [Int64.le_iff_toInt_le, Int64.toInt_zero, hsum]
  omega

namespace Store

/-- The pairs of a chain in order, each of which has the next one in its second slot, from the value
that starts with them to the value behind them. -/
inductive Spans (s : Store) : Value → List Address → Value → Prop
  | nil (v : Value) : Spans s v [] v
  | cons {p : Address} {ps : List Address} {w : Value} (h : Spans s (s.second p) ps w) :
      Spans s (.pair p) (p :: ps) w

variable {s : Store} {v w : Value} {vs : List Value} {ps : List Address} {n : Nat}
  {i j k : Int64}

theorem Spans.follow_eq (h : s.Spans v ps w) : s.follow ps.length v = some w := by
  induction h with
  | nil => rfl
  | cons h ih => exact ih

theorem exists_spans_of_follow (h : s.follow n v = some w) :
    ∃ ps, ps.length = n ∧ s.Spans v ps w := by
  induction n generalizing v with
  | zero =>
    cases h
    exact ⟨[], rfl, .nil _⟩
  | succ n ih =>
    cases v with
    | atom a => cases h
    | pair p =>
      have hrest : s.follow n (s.second p) = some w := h
      obtain ⟨ps, hlen, hps⟩ := ih hrest
      exact ⟨p :: ps, by rw [List.length_cons, hlen], .cons hps⟩

theorem follow_eq_some_iff : s.follow n v = some w ↔ ∃ ps, ps.length = n ∧ s.Spans v ps w := by
  refine ⟨exists_spans_of_follow, ?_⟩
  rintro ⟨ps, rfl, h⟩
  exact h.follow_eq

section Lists

variable (h : s.elements? v = some vs)
include h

/-- A list can be followed up to the empty list at its end. -/
theorem exists_follow_iff_of_elements? : (∃ w, s.follow n v = some w) ↔ n ≤ vs.length := by
  have hend := (elements?_iff_follow.1 h).1
  constructor
  · rintro ⟨w, hw⟩
    by_contra hlt
    obtain ⟨d, rfl⟩ := Nat.exists_eq_add_of_lt (Nat.lt_of_not_le hlt)
    rw [Nat.add_assoc, follow_add_of_eq_some hend] at hw
    cases hw
  · intro hle
    obtain ⟨d, hd⟩ := Nat.exists_eq_add_of_le hle
    rw [hd, follow_add, Option.bind_eq_some_iff] at hend
    obtain ⟨w, hw, -⟩ := hend
    exact ⟨w, hw⟩

theorem exists_follow_pair_iff_of_elements? :
    (∃ p, s.follow n v = some (.pair p) ∧ w = s.first p) ↔ vs[n]? = some w := by
  obtain ⟨hend, hat⟩ := elements?_iff_follow.1 h
  constructor
  · rintro ⟨p, hp, rfl⟩
    have hle := (exists_follow_iff_of_elements? h).1 ⟨_, hp⟩
    have hne : n ≠ vs.length := by
      rintro rfl
      rw [hp] at hend
      cases hend
    obtain ⟨q, hq, he⟩ := hat n (Nat.lt_of_le_of_ne hle hne)
    rw [hp] at hq
    cases hq
    exact List.getElem?_eq_some_iff.2 ⟨_, he⟩
  · intro hw
    obtain ⟨hlt, rfl⟩ := List.getElem?_eq_some_iff.1 hw
    exact hat n hlt

end Lists

theorem listTail_eq_ok_iff :
    s.listTail v k = .ok w ↔ 0 ≤ k ∧ s.follow k.toInt.toNat v = some w := by
  rw [← Int64.not_lt, listTail]
  split
  · next hneg => simp [hneg]
  · next hneg => cases s.follow k.toInt.toNat v <;> simp [hneg]

theorem listTail_ok_or (s : Store) (v : Value) (k : Int64) :
    (∃ w, s.listTail v k = .ok w) ∨ s.listTail v k = .error (.badIndex k) := by
  rw [listTail]
  split
  · exact .inr rfl
  · cases s.follow k.toInt.toNat v with
    | none => exact .inr rfl
    | some w => exact .inl ⟨w, rfl⟩

theorem listRef_eq_ok_iff :
    s.listRef v k = .ok w ↔ ∃ p, s.listTail v k = .ok (.pair p) ∧ w = s.first p := by
  rw [listRef]
  rcases s.listTail v k with e | a | p <;> simp [eq_comm]

theorem listRef_ok_or (s : Store) (v : Value) (k : Int64) :
    (∃ w, s.listRef v k = .ok w) ∨ s.listRef v k = .error (.badIndex k) := by
  rw [listRef]
  obtain ⟨w, hw⟩ | herr := s.listTail_ok_or v k
  · rw [hw]
    cases w with
    | atom a => exact .inr rfl
    | pair p => exact .inl ⟨_, rfl⟩
  · rw [herr]
    exact .inr rfl

theorem listTail_add (hi : 0 ≤ i) (hj : 0 ≤ j) (hlt : i.toInt + j.toInt < 2 ^ 63) :
    s.listTail v (i + j) = .ok w ↔ ∃ u, s.listTail v i = .ok u ∧ s.listTail u j = .ok w := by
  obtain ⟨hsum, hnat⟩ := index_add hi hj hlt
  simp only [listTail_eq_ok_iff, hi, hj, hsum, hnat, true_and, follow_add,
    Option.bind_eq_some_iff]

/-- There is nothing else between an answer and a bad index. -/
theorem listTail_eq_error_iff :
    s.listTail v k = .error (.badIndex k) ↔ ∀ w, s.listTail v k ≠ .ok w := by
  obtain ⟨w, hw⟩ | he := s.listTail_ok_or v k
  · simp [hw]
  · simp [he]

theorem listRef_eq_error_iff :
    s.listRef v k = .error (.badIndex k) ↔ ∀ w, s.listRef v k ≠ .ok w := by
  obtain ⟨w, hw⟩ | he := s.listRef_ok_or v k
  · simp [hw]
  · simp [he]

theorem listTail_add_eq_error_iff (hi : 0 ≤ i) (hj : 0 ≤ j) (hlt : i.toInt + j.toInt < 2 ^ 63) :
    s.listTail v (i + j) = .error (.badIndex (i + j)) ↔
      s.listTail v i = .error (.badIndex i) ∨
        ∃ u, s.listTail v i = .ok u ∧ s.listTail u j = .error (.badIndex j) := by
  obtain ⟨u, hu⟩ | he := s.listTail_ok_or v i
  · simp [listTail_eq_error_iff, listTail_add hi hj hlt, hu]
  · simp [listTail_eq_error_iff, listTail_add hi hj hlt, he]

theorem exists_listTail_iff_of_elements? (h : s.elements? v = some vs) :
    (∃ w, s.listTail v k = .ok w) ↔ 0 ≤ k ∧ k.toInt ≤ vs.length := by
  simp only [listTail_eq_ok_iff, exists_and_left, exists_follow_iff_of_elements? h, Int.toNat_le]

theorem listRef_eq_ok_iff_of_elements? (h : s.elements? v = some vs) :
    s.listRef v k = .ok w ↔ 0 ≤ k ∧ vs[k.toInt.toNat]? = some w := by
  simp only [listRef_eq_ok_iff, listTail_eq_ok_iff, and_assoc, exists_and_left,
    exists_follow_pair_iff_of_elements? h]

theorem exists_listRef_iff_of_elements? (h : s.elements? v = some vs) :
    (∃ w, s.listRef v k = .ok w) ↔ 0 ≤ k ∧ k.toInt < vs.length := by
  simp only [listRef_eq_ok_iff_of_elements? h, exists_and_left, ← Option.isSome_iff_exists,
    isSome_getElem?]
  refine and_congr_right fun hk ↦ Int.toNat_lt ?_
  rwa [Int64.le_iff_toInt_le, Int64.toInt_zero] at hk

theorem Loops.exists_listTail (h : s.Loops v) (hk : 0 ≤ k) :
    ∃ p, s.listTail v k = .ok (.pair p) := by
  obtain ⟨p, hp⟩ := exists_pair_of_endless (fun _ _ ↦ h.follow_ne_atom) k.toInt.toNat
  exact ⟨p, listTail_eq_ok_iff.2 ⟨hk, hp⟩⟩

end Store

namespace Procedure

open EvalM

/-- On these arguments the procedure comes to this result, and the store stays as it is. -/
def Answers (p : Procedure) (s : Store) (arguments : List Value) (result : Except Error Value) :
    Prop :=
  ∀ verbosity, p.run arguments verbosity s = .ok ⟨result, s, []⟩

variable {s : Store} {v : Value} {k : Int64} {p : Procedure} {arguments : List Value}
  {result : Except Error Value}

theorem Answers.unique {other : Except Error Value} (h : p.Answers s arguments result)
    (h' : p.Answers s arguments other) : result = other := by
  have he := (h .silent).symm.trans (h' .silent)
  cases he
  rfl

/-- A procedure that only looks at the store. -/
theorem answers_iff_of_run_eq (look : Store → Except Error Value)
    (h : p.run arguments = inspect look >>= ofExcept) :
    p.Answers s arguments result ↔ look s = result := by
  have hanswers : p.Answers s arguments (look s) := by
    intro verbosity
    rw [h]
    change EvalM.bind (inspect look) ofExcept verbosity s = _
    rw [EvalM.bind, inspect]
    cases look s <;> rfl
  exact ⟨hanswers.unique, fun he ↦ he ▸ hanswers⟩

theorem answers_listTail_iff :
    listTail.Answers s [v, .integer k] result ↔ s.listTail v k = result :=
  answers_iff_of_run_eq (fun s ↦ s.listTail v k) (pure_bind k _)

theorem answers_listRef_iff :
    listRef.Answers s [v, .integer k] result ↔ s.listRef v k = result :=
  answers_iff_of_run_eq (fun s ↦ s.listRef v k) (pure_bind k _)

/-- An index counts the pairs of a chain, whether it ends in the empty list, in another atom or not
at all, and nothing is changed. The tail at an index that is not negative is what is behind that
many pairs, and the element there is in the first slot of the pair that the tail starts with; where
there is none, the error carries the index. Tails of tails are tails at the sum of the indices. A
list of `n` elements has tails from 0 to `n` and its elements from 0 to `n - 1`, and a chain that
comes back to one of its pairs has both everywhere. -/
theorem index_counts_pairs (s : Store) (v : Value) (k : Int64) :
    (∀ w, listTail.Answers s [v, .integer k] (.ok w) ↔
      0 ≤ k ∧ ∃ ps : List Address, ps.length = k.toInt.toNat ∧ s.Spans v ps w) ∧
    (∀ w, listRef.Answers s [v, .integer k] (.ok w) ↔
      ∃ p, listTail.Answers s [v, .integer k] (.ok (.pair p)) ∧ w = s.first p) ∧
    (∀ p ∈ [listTail, listRef], p.Answers s [v, .integer k] (.error (.badIndex k)) ↔
      ∀ w, ¬ p.Answers s [v, .integer k] (.ok w)) ∧
    (∀ i j : Int64, 0 ≤ i → 0 ≤ j → i.toInt + j.toInt < 2 ^ 63 →
      (∀ w, listTail.Answers s [v, .integer (i + j)] (.ok w) ↔
        ∃ u, listTail.Answers s [v, .integer i] (.ok u) ∧
          listTail.Answers s [u, .integer j] (.ok w)) ∧
      (listTail.Answers s [v, .integer (i + j)] (.error (.badIndex (i + j))) ↔
        listTail.Answers s [v, .integer i] (.error (.badIndex i)) ∨
          ∃ u, listTail.Answers s [v, .integer i] (.ok u) ∧
            listTail.Answers s [u, .integer j] (.error (.badIndex j)))) ∧
    (∀ vs, s.elements? v = some vs →
      ((∃ w, listTail.Answers s [v, .integer k] (.ok w)) ↔ 0 ≤ k ∧ k.toInt ≤ vs.length) ∧
      ((∃ w, listRef.Answers s [v, .integer k] (.ok w)) ↔ 0 ≤ k ∧ k.toInt < vs.length) ∧
      ∀ w, listRef.Answers s [v, .integer k] (.ok w) ↔ 0 ≤ k ∧ vs[k.toInt.toNat]? = some w) ∧
    (s.Loops v → 0 ≤ k → ∃ p, listTail.Answers s [v, .integer k] (.ok (.pair p)) ∧
      listRef.Answers s [v, .integer k] (.ok (s.first p))) := by
  simp only [answers_listTail_iff, answers_listRef_iff, List.mem_cons, List.not_mem_nil, or_false,
    forall_eq_or_imp, forall_eq]
  refine ⟨fun w ↦ ?_, fun w ↦ Store.listRef_eq_ok_iff,
    ⟨Store.listTail_eq_error_iff, Store.listRef_eq_error_iff⟩, fun i j hi hj hlt ↦ ?_,
    fun vs h ↦ ?_, fun h hk ↦ ?_⟩
  · rw [Store.listTail_eq_ok_iff, Store.follow_eq_some_iff]
  · exact ⟨fun w ↦ Store.listTail_add hi hj hlt, Store.listTail_add_eq_error_iff hi hj hlt⟩
  · exact ⟨Store.exists_listTail_iff_of_elements? h, Store.exists_listRef_iff_of_elements? h,
      fun w ↦ Store.listRef_eq_ok_iff_of_elements? h⟩
  · obtain ⟨p, hp⟩ := h.exists_listTail hk
    exact ⟨p, hp, Store.listRef_eq_ok_iff.2 ⟨p, hp, rfl⟩⟩

/-- The last index of a list, the one behind it, and the greatest index on a chain without end. -/
theorem index_counts_pairs_shared :
    Store.shared.elements? (.pair 1) = some [.pair 0, .pair 0] ∧
      listRef.Answers Store.shared [.pair 1, .integer 1] (.ok (.pair 0)) ∧
      (∃ w, listTail.Answers Store.shared [.pair 1, .integer 2] (.ok w)) ∧
      listRef.Answers Store.shared [.pair 1, .integer 2] (.error (.badIndex 2)) ∧
      (1 : Int64).toInt + (1 : Int64).toInt < 2 ^ 63 ∧
      (∃ u, listTail.Answers Store.shared [.pair 1, .integer 1] (.ok u) ∧
        listTail.Answers Store.shared [u, .integer 1] (.ok .nil)) ∧
      Store.shared.Loops (.pair 3) ∧
      ∃ p, listTail.Answers Store.shared [.pair 3, .integer Int64.maxValue] (.ok (.pair p)) ∧
        listRef.Answers Store.shared [.pair 3, .integer Int64.maxValue]
          (.ok (Store.shared.first p)) := by
  have hel : Store.shared.elements? (.pair 1) = some [.pair 0, .pair 0] := by decide
  have hloops : Store.shared.Loops (.pair 3) := ⟨1, 4, 0, rfl, rfl⟩
  have hfits : (1 : Int64).toInt + (1 : Int64).toInt < 2 ^ 63 := by decide
  obtain ⟨-, -, -, -, hone, -⟩ := index_counts_pairs Store.shared (.pair 1) 1
  obtain ⟨htail, -, herror, hadd, htwo, -⟩ := index_counts_pairs Store.shared (.pair 1) 2
  obtain ⟨-, -, -, -, -, hendless⟩ := index_counts_pairs Store.shared (.pair 3) Int64.maxValue
  have hspans : Store.shared.Spans (.pair 1) [1, 2] .nil := .cons (.cons (.nil _))
  refine ⟨hel, ((hone _ hel).2.2 _).2 ⟨by decide, rfl⟩, (htwo _ hel).1.2 (by decide),
    (herror listRef (by decide)).2 fun w hw ↦ ?_, hfits, ?_, hloops, hendless hloops (by decide)⟩
  · exact absurd ((htwo _ hel).2.1.1 ⟨w, hw⟩) (by decide)
  · exact ((hadd 1 1 (by decide) (by decide) hfits).1 _).1 ((htail _).2 ⟨by decide, _, rfl, hspans⟩)

end Procedure

end MiniScheme
