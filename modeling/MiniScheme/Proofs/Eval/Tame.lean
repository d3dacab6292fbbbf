import MiniScheme.Eval.Form
import MiniScheme.Eval.Procedure

namespace MiniScheme

/-- An error that repeats nothing of the program or its text but numbers. -/
def Error.Plain : Error → Prop
  | reading _ | notCallable _ | procedureNotEvaluable _ | unboundName _ => False
  | formArity mismatch | callArity mismatch => mismatch.name ∈ Builtin.all.map Builtin.name
  | _ => True

/-- If this fails, then with a plain error. -/
def Tame {α : Type} (x : Except Error α) : Prop := ∀ e, x = .error e → e.Plain

theorem Builtin.name_mem (b : Builtin) : b.name ∈ Builtin.all.map Builtin.name :=
  List.mem_map_of_mem b.mem_all

theorem exists_of_map_eq_ok {ε α β : Type} {f : α → β} {x : Except ε α} {b : β}
    (h : x.map f = .ok b) : ∃ a, x = .ok a ∧ f a = b := by
  cases x with
  | error e => cases h
  | ok a => exact ⟨a, rfl, Except.ok.inj h⟩

theorem exists_of_bind_eq_ok {ε α β : Type} {f : α → Except ε β} {x : Except ε α} {b : β}
    (h : x >>= f = .ok b) : ∃ a, x = .ok a ∧ f a = .ok b := by
  cases x with
  | error e => cases h
  | ok a => exact ⟨a, rfl, h⟩

theorem mapM_cons_eq {α β : Type} (f : α → Except Error β) (a : α) (as : List α) :
    (a :: as).mapM f =
      match f a, as.mapM f with
      | .error e, _ => .error e
      | .ok _, .error e => .error e
      | .ok b, .ok bs => .ok (b :: bs) := by
  rw [List.mapM_cons]
  cases f a with
  | error e => rfl
  | ok b => cases as.mapM f <;> rfl

theorem tame_mapM {α β : Type} {f : α → Except Error β} (hf : ∀ a, Tame (f a)) (as : List α) :
    Tame (as.mapM f) := by
  induction as with
  | nil => exact fun _ h ↦ nomatch h
  | cons a as ih =>
    intro e h
    rw [mapM_cons_eq] at h
    split at h
    · next he =>
      cases h
      exact hf a e he
    · next he =>
      cases h
      exact ih e he
    · cases h

theorem tame_foldlM {α β : Type} {f : β → α → Except Error β} (hf : ∀ b a, Tame (f b a))
    (as : List α) (b : β) : Tame (as.foldlM f b) := by
  induction as generalizing b with
  | nil => exact fun _ h ↦ nomatch h
  | cons a as ih =>
    intro e h
    rw [List.foldlM_cons] at h
    cases ha : f b a with
    | error e' =>
      rw [ha] at h
      cases h
      exact hf b a e ha
    | ok b' =>
      rw [ha] at h
      exact ih b' e h

theorem exists_of_mem_mapM {α β : Type} {f : α → Except Error β} {as : List α} {bs : List β}
    (h : as.mapM f = .ok bs) {b : β} (hb : b ∈ bs) : ∃ a ∈ as, f a = .ok b := by
  induction as generalizing bs with
  | nil =>
    cases h
    cases hb
  | cons a as ih =>
    rw [mapM_cons_eq] at h
    split at h
    · cases h
    · cases h
    · next b' bs' ha hs =>
      cases h
      rcases List.mem_cons.1 hb with rfl | hb
      · exact ⟨a, List.mem_cons_self, ha⟩
      · obtain ⟨a', ha', hf⟩ := ih hs hb
        exact ⟨a', List.mem_cons_of_mem a ha', hf⟩

theorem tame_toInteger (v : Value) : Tame v.toInteger := by
  intro e h
  unfold Value.toInteger at h
  split at h <;> cases h
  trivial

theorem tame_toPair (v : Value) : Tame v.toPair := by
  intro e h
  unfold Value.toPair at h
  split at h <;> cases h
  trivial

theorem eq_pair_of_toPair {v : Value} {p : Address} (h : v.toPair = .ok p) : v = .pair p := by
  unfold Value.toPair at h
  split at h <;> cases h
  rfl

theorem tame_parameterName (v : Value) : Tame (SpecialForm.parameterName v) := by
  intro e h
  unfold SpecialForm.parameterName at h
  split at h <;> cases h
  trivial

theorem eq_symbol_of_parameterName {v : Value} {name : String}
    (h : SpecialForm.parameterName v = .ok name) : v = .symbol name := by
  unfold SpecialForm.parameterName at h
  split at h <;> cases h
  rfl

theorem tame_divide (x y : Int64) : Tame (Arithmetic.divide x y) := by
  intro e h
  rw [Arithmetic.divide] at h
  split at h <;> cases h
  trivial

theorem tame_quotient (x : Int64) (ys : List Int64) : Tame (Arithmetic.quotient x ys) := by
  cases ys with
  | nil => exact tame_divide 1 x
  | cons y ys => exact tame_foldlM tame_divide (y :: ys) x

theorem tame_listTail (s : Store) (v : Value) (k : Int64) : Tame (s.listTail v k) := by
  intro e h
  rw [Store.listTail] at h
  split at h
  · cases h
    trivial
  · split at h <;> cases h
    trivial

theorem tame_listRef (s : Store) (v : Value) (k : Int64) : Tame (s.listRef v k) := by
  intro e h
  rw [Store.listRef] at h
  split at h
  · cases h
  · cases h
    trivial
  · next ht =>
    cases h
    exact tame_listTail s v k e ht

end MiniScheme
