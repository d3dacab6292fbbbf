import MiniScheme.Proofs.Eval.Frame
import MiniScheme.Proofs.Eval.Trail

namespace MiniScheme

namespace Store

/-- What is looked at, at every address of the earlier store, is the same in the later one. -/
def Retains {α : Type} (size : Store → Nat) (look : Store → Address → α) (s t : Store) : Prop :=
  size s ≤ size t ∧ ∀ a < size s, look t a = look s a

variable {α : Type} {size : Store → Nat} {look : Store → Address → α} {s t u : Store}

theorem Retains.refl (s : Store) : Retains size look s s := ⟨Nat.le_refl _, fun _ _ ↦ rfl⟩

theorem Retains.trans (h : Retains size look s t) (h' : Retains size look t u) :
    Retains size look s u :=
  ⟨Nat.le_trans h.1 h'.1, fun a ha ↦
    (h'.2 a (Nat.lt_of_lt_of_le ha h.1)).trans (h.2 a ha)⟩

theorem ExtendedBy.first_eq (h : s.ExtendedBy t) {p : Address} (hp : p < s.pairs.size) :
    t.first p = s.first p := by
  rw [first, first, h.pair_eq hp]

theorem ExtendedBy.second_eq (h : s.ExtendedBy t) {p : Address} (hp : p < s.pairs.size) :
    t.second p = s.second p := by
  rw [second, second, h.pair_eq hp]

theorem ExtendedBy.names_eq (h : s.ExtendedBy t) {d : Address} (hd : d < s.scopes.size) :
    t.names d = s.names d := by
  rw [names, names, h.scope_eq hd]

end Store

namespace Builtin.Changes

open Store

variable {b : Builtin} {s t : Store}

theorem precedes (h : b.Changes s t) : s.Precedes t := by
  cases h with
  | extend h => exact h.precedes
  | define s e name v => exact precedes_bindHere s e name v
  | assign h => exact precedes_assign h
  | setFirst s p v => exact precedes_setFirst s p v
  | setSecond s p v => exact precedes_setSecond s p v

theorem retains_first (h : b.Changes s t) (hb : b ≠ .procedure .setCar) :
    Retains (·.pairs.size) first s t := by
  refine ⟨h.precedes.pairs_le, fun p hp ↦ ?_⟩
  cases h with
  | extend h => exact h.first_eq hp
  | define => rfl
  | assign h =>
    obtain ⟨a, -, rfl⟩ := Option.map_eq_some_iff.1 h
    rfl
  | setFirst => exact absurd rfl hb
  | setSecond s q v => exact first_setSecond s q p v

theorem retains_second (h : b.Changes s t) (hb : b ≠ .procedure .setCdr) :
    Retains (·.pairs.size) second s t := by
  refine ⟨h.precedes.pairs_le, fun p hp ↦ ?_⟩
  cases h with
  | extend h => exact h.second_eq hp
  | define => rfl
  | assign h =>
    obtain ⟨a, -, rfl⟩ := Option.map_eq_some_iff.1 h
    rfl
  | setFirst s q v => exact second_setFirst s q p v
  | setSecond => exact absurd rfl hb

theorem retains_scope (h : b.Changes s t) (hd : b ≠ .form .define) (ha : b ≠ .form .assign) :
    Retains (·.scopes.size) scope s t := by
  refine ⟨h.precedes.scopes_le, fun e he ↦ ?_⟩
  cases h with
  | extend h => exact h.scope_eq he
  | define => exact absurd rfl hd
  | assign => exact absurd rfl ha
  | setFirst | setSecond => rfl

/-- An assignment binds no name that has not been bound before. -/
theorem retains_names (h : b.Changes s t) (hd : b ≠ .form .define) :
    Retains (·.scopes.size) names s t := by
  refine ⟨h.precedes.scopes_le, fun e he ↦ ?_⟩
  cases h with
  | extend h => exact h.names_eq he
  | define => exact absurd rfl hd
  | assign h => exact names_assign h e
  | setFirst | setSecond => rfl

end Builtin.Changes

/-- The words with which the messages about calls of a built-in begin. -/
def Builtin.opening : Builtin → String
  | .form f => "Apply " ++ f.name ++ " to "
  | .procedure p => "Call " ++ p.name ++ " with "

namespace Event

/-- The log tells of a call of the built-in. -/
def Calls (log : List Event) (b : Builtin) : Prop := ∃ event ∈ log, event.opens? = some b

/-- Some message of the log begins with the given words. -/
def Tells (log : List Event) (words : String) : Prop :=
  ∃ event ∈ log, words.toList <+: event.message.toList

variable {log later : List Event} {b : Builtin}

theorem Calls.mono (h : Calls log b) (hl : log ⊆ later) : Calls later b := by
  obtain ⟨event, hm, he⟩ := h
  exact ⟨event, hl hm, he⟩

theorem opening_isPrefix_message {event : Event} (h : event.opens? = some b) :
    b.opening.toList <+: event.message.toList := by
  cases event <;> cases h
  · simp [message, Builtin.opening]
  · simp [message, Builtin.opening]

theorem Calls.tells (h : Calls log b) : Tells log b.opening := by
  obtain ⟨event, hm, he⟩ := h
  exact ⟨event, hm, opening_isPrefix_message he⟩

end Event

open Event Store in
/-- What stays the same whatever is added to the store, and under all built-ins that the log tells
of, is the same at the end. -/
theorem Trail.retains {α : Type} {size : Store → Nat} {look : Store → Address → α} {s t : Store}
    {r : Option Error} {log : List Event} (h : Trail s r t log)
    (hext : ∀ {s t : Store}, s.ExtendedBy t → Retains size look s t)
    (hcalls : ∀ {b : Builtin} {s t : Store}, Calls log b → b.Changes s t →
      Retains size look s t) : Retains size look s t := by
  induction h with
  | done s | fail s | note s => exact .refl s
  | extend h => exact hext h
  | seq _ _ ih ih' =>
    refine (ih fun hc ↦ hcalls (hc.mono ?_)).trans (ih' fun hc ↦ hcalls (hc.mono ?_))
    · exact List.subset_append_left _ _
    · exact List.subset_append_right _ _
  | form arguments _ hc _ ih =>
    refine (ih fun hin ↦ hcalls (hin.mono ?_)).trans (hcalls ?_ hc)
    · exact List.subset_cons_of_subset _ (List.subset_append_left _ _)
    · exact ⟨_, List.mem_cons_self, rfl⟩
  | call arguments hc _ => exact hcalls ⟨_, List.mem_cons_self, rfl⟩ hc

namespace Trail

open Event Store

variable {s t : Store} {r : Option Error} {log : List Event} (h : Trail s r t log)
include h

theorem first_eq (hn : ¬ Calls log (.procedure .setCar)) {p : Address} (hp : p < s.pairs.size) :
    t.first p = s.first p := by
  have hr : Retains (·.pairs.size) first s t :=
    h.retains (fun he ↦ ⟨he.precedes.pairs_le, fun _ ↦ he.first_eq⟩) fun hc hb ↦
      hb.retains_first fun heq ↦ hn (heq ▸ hc)
  exact hr.2 p hp

theorem second_eq (hn : ¬ Calls log (.procedure .setCdr)) {p : Address} (hp : p < s.pairs.size) :
    t.second p = s.second p := by
  have hr : Retains (·.pairs.size) second s t :=
    h.retains (fun he ↦ ⟨he.precedes.pairs_le, fun _ ↦ he.second_eq⟩) fun hc hb ↦
      hb.retains_second fun heq ↦ hn (heq ▸ hc)
  exact hr.2 p hp

theorem scope_eq (hd : ¬ Calls log (.form .define)) (ha : ¬ Calls log (.form .assign))
    {e : Address} (he : e < s.scopes.size) : t.scope e = s.scope e := by
  have hr : Retains (·.scopes.size) scope s t :=
    h.retains (fun hs ↦ ⟨hs.precedes.scopes_le, fun _ ↦ hs.scope_eq⟩) fun hc hb ↦
      hb.retains_scope (fun heq ↦ hd (heq ▸ hc)) fun heq ↦ ha (heq ▸ hc)
  exact hr.2 e he

theorem names_eq (hd : ¬ Calls log (.form .define)) {e : Address} (he : e < s.scopes.size) :
    t.names e = s.names e := by
  have hr : Retains (·.scopes.size) names s t :=
    h.retains (fun hs ↦ ⟨hs.precedes.scopes_le, fun _ ↦ hs.names_eq⟩) fun hc hb ↦
      hb.retains_names fun heq ↦ hd (heq ▸ hc)
  exact hr.2 e he

end Trail

namespace Eval

open Event

variable {depth : Nat} {s : Store} {x : Value} {e : Address} {run : Run Value}

/-- Whatever of the earlier store an evaluation has changed, its log tells of a call that changes
such things. -/
theorem eval_tells_of_mutation (h : eval depth x e .trace s = .ok run) :
    (∀ p < s.pairs.size,
      (run.store.first p ≠ s.first p → Tells run.log "Call set-car! with ") ∧
      (run.store.second p ≠ s.second p → Tells run.log "Call set-cdr! with ")) ∧
    (∀ d < s.scopes.size, ∀ name,
      (run.store.lookupHere d name ≠ s.lookupHere d name →
        Tells run.log "Apply define to " ∨ Tells run.log "Apply set! to ") ∧
      (name ∈ run.store.names d → name ∉ s.names d → Tells run.log "Apply define to ")) ∧
    (¬ Tells run.log "Call set-car! with " → ¬ Tells run.log "Call set-cdr! with " →
      ¬ Tells run.log "Apply define to " → ¬ Tells run.log "Apply set! to " →
      (∀ p < s.pairs.size, run.store.pair p = s.pair p) ∧
        ∀ d < s.scopes.size, run.store.scope d = s.scope d) := by
  have ht := trails_eval depth x e s run h
  have hcar : Calls run.log (.procedure .setCar) → Tells run.log "Call set-car! with " :=
    Calls.tells
  have hcdr : Calls run.log (.procedure .setCdr) → Tells run.log "Call set-cdr! with " :=
    Calls.tells
  have hdefine : Calls run.log (.form .define) → Tells run.log "Apply define to " := Calls.tells
  have hassign : Calls run.log (.form .assign) → Tells run.log "Apply set! to " := Calls.tells
  refine ⟨fun p hp ↦ ⟨fun hne ↦ ?_, fun hne ↦ ?_⟩,
    fun d hd name ↦ ⟨fun hne ↦ ?_, fun hin hout ↦ ?_⟩,
    fun hncar hncdr hndefine hnassign ↦ ⟨fun p hp ↦ ?_, fun d hd ↦ ?_⟩⟩
  · by_contra hn
    exact hne (ht.first_eq (mt hcar hn) hp)
  · by_contra hn
    exact hne (ht.second_eq (mt hcdr hn) hp)
  · by_contra hn
    obtain ⟨hnd, hna⟩ := not_or.1 hn
    apply hne
    rw [Store.lookupHere, Store.lookupHere, ht.scope_eq (mt hdefine hnd) (mt hassign hna) hd]
  · by_contra hn
    exact hout (ht.names_eq (mt hdefine hn) hd ▸ hin)
  · have hf := ht.first_eq (mt hcar hncar) hp
    have hs := ht.second_eq (mt hcdr hncdr) hp
    exact congrArg₂ Pair.mk hf hs
  · exact ht.scope_eq (mt hdefine hndefine) (mt hassign hnassign) hd

/-- A pair changes through another name of the built-in, and the log has the built-in's own. -/
theorem eval_tells_of_mutation_aliased :
    ∃ run, eval 9 callOfSetter.1 0 .trace callOfSetter.2 = .ok run ∧
      run.store.first 0 ≠ callOfSetter.2.first 0 ∧ Tells run.log "Call set-car! with " := by
  have hcall : (eval 9 callOfSetter.1 0 .trace callOfSetter.2).map (fun run ↦ run.store.first 0) =
      .ok (.integer 7) := by
    cbv
  obtain ⟨run, hr, hf⟩ := exists_of_map_eq_ok hcall
  have hne : run.store.first 0 ≠ callOfSetter.2.first 0 := by
    rw [hf]
    decide
  exact ⟨run, hr, hne, ((eval_tells_of_mutation hr).1 0 (by decide)).1 hne⟩

end Eval

end MiniScheme
