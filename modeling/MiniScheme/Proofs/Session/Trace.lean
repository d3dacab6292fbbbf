import MiniScheme.Proofs.Eval.Tame
import MiniScheme.Proofs.Eval.Trail
import MiniScheme.Session.Basic
import Mathlib

namespace MiniScheme

namespace Event

/-- The calls that are open after an event, the last one first, if the event fits those open before
it: an end closes the last one, and a procedure runs nothing before its end. -/
def track (opened : List Builtin) (event : Event) : Option (List Builtin) :=
  match event.closes?, opened with
  | some callee, last :: rest => if last = callee then some rest else none
  | some _, [] => none
  | none, .procedure _ :: _ => none
  | none, opened => some (event.opens?.toList ++ opened)

/-- Read from first to last, the events close all calls that they open, and no others. -/
def WellBracketed (log : List Event) : Prop := log.foldlM track [] = some []

instance (log : List Event) : Decidable (WellBracketed log) :=
  inferInstanceAs (Decidable (_ = _))

/-- The last call still open, if there is one, is that of a form. -/
def Waiting (opened : List Builtin) : Prop := ∀ p rest, opened ≠ .procedure p :: rest

theorem track_of_closes?_eq_none {opened : List Builtin} {event : Event} (ho : Waiting opened)
    (he : event.closes? = none) : track opened event = some (event.opens?.toList ++ opened) := by
  unfold track
  rw [he]
  rcases opened with _ | ⟨f | p, rest⟩
  · rfl
  · rfl
  · exact absurd rfl (ho p rest)

theorem Reports.closes?_eq {b : Builtin} {r : Option Error} {event : Event}
    (h : event.Reports b r) : event.closes? = some b := by
  cases h <;> rfl

theorem track_of_reports {b : Builtin} {r : Option Error} {event : Event} (h : event.Reports b r)
    (opened : List Builtin) : track (b :: opened) event = some opened := by
  unfold track
  rw [h.closes?_eq]
  exact if_pos rfl

/-- The events up to some point tell of no failure, and those after it only of the one given. -/
def Surfaces (r : Option Error) (log : List Event) : Prop :=
  ∃ clean tail, log = clean ++ tail ∧ (∀ b e, .failed b e ∉ clean) ∧
    ∀ event ∈ tail, ∃ b e, r = some e ∧ event = .failed b e

theorem surfaces_clean {r : Option Error} {log : List Event} (h : ∀ b e, .failed b e ∉ log) :
    Surfaces r log :=
  ⟨log, [], by simp, h, by simp⟩

theorem Surfaces.clean {log : List Event} (h : Surfaces none log) (b : Builtin) (e : Error) :
    .failed b e ∉ log := by
  obtain ⟨clean, tail, rfl, hclean, htail⟩ := h
  intro hm
  rcases List.mem_append.1 hm with hm | hm
  · exact hclean b e hm
  · obtain ⟨_, _, hr, -⟩ := htail _ hm
    cases hr

theorem Surfaces.append {r : Option Error} {log later : List Event} (h : Surfaces none log)
    (h' : Surfaces r later) : Surfaces r (log ++ later) := by
  obtain ⟨clean, tail, rfl, hclean, htail⟩ := h'
  refine ⟨log ++ clean, tail, by simp, fun b e hm ↦ ?_, htail⟩
  rcases List.mem_append.1 hm with hm | hm
  · exact h.clean b e hm
  · exact hclean b e hm

theorem Surfaces.report {r : Option Error} {log : List Event} {b : Builtin} {event : Event}
    (h : Surfaces r log) (he : event.Reports b r) : Surfaces r (log ++ [event]) := by
  cases he with
  | returned text => exact h.append (surfaces_clean (by simp))
  | failed e =>
    obtain ⟨clean, tail, rfl, hclean, htail⟩ := h
    refine ⟨clean, tail ++ [.failed b e], by simp, hclean, fun event hm ↦ ?_⟩
    rcases List.mem_append.1 hm with hm | hm
    · exact htail event hm
    · exact ⟨b, e, rfl, List.mem_singleton.1 hm⟩

/-- After an event that tells of a failure all events tell of the same one. -/
theorem Surfaces.eq_failed {r : Option Error} {before after : List Event} {b : Builtin}
    {e : Error} (h : Surfaces r (before ++ .failed b e :: after)) :
    r = some e ∧ ∀ event ∈ after, ∃ b', event = .failed b' e := by
  obtain ⟨clean, tail, heq, hclean, htail⟩ := h
  have hsub : .failed b e :: after <:+ tail := by
    rcases List.append_eq_append_iff.1 heq with ⟨middle, rfl, ht⟩ | ⟨middle, rfl, ht⟩
    · cases middle with
      | nil => exact ⟨[], by simpa using ht⟩
      | cons x middle =>
        cases ht
        exact absurd (by simp) (hclean b e)
    · exact ⟨middle, ht.symm⟩
  have hfirst := htail _ (hsub.subset List.mem_cons_self)
  obtain ⟨_, e', rfl, he⟩ := hfirst
  cases he
  refine ⟨rfl, fun event hm ↦ ?_⟩
  obtain ⟨b', e', hr, rfl⟩ := htail event (hsub.subset (List.mem_cons_of_mem _ hm))
  cases hr
  exact ⟨b', rfl⟩

end Event

variable {s t : Store} {r : Option Error} {log : List Event}

theorem Trail.foldlM_track (h : Trail s r t log) {opened : List Builtin}
    (ho : Event.Waiting opened) : log.foldlM Event.track opened = some opened := by
  induction h generalizing opened with
  | done | fail | extend => rfl
  | note s h =>
    rw [List.foldlM_cons, Event.track_of_closes?_eq_none ho h.2, h.1]
    rfl
  | seq _ _ ih ih' => rw [List.foldlM_append, ih ho, Option.bind_eq_bind, Option.bind_some, ih' ho]
  | @form s t u r log event f arguments _ _ he ih =>
    have hform : Event.Waiting (.form f :: opened) := by simp [Event.Waiting]
    rw [List.foldlM_cons, Event.track_of_closes?_eq_none ho rfl, Option.bind_eq_bind,
      Option.bind_some, List.foldlM_append]
    change List.foldlM _ (Builtin.form f :: opened) log >>= _ = _
    rw [ih hform, Option.bind_eq_bind, Option.bind_some, List.foldlM_cons,
      Event.track_of_reports he]
    rfl
  | @call s t r event p arguments _ he =>
    rw [List.foldlM_cons, Event.track_of_closes?_eq_none ho rfl, Option.bind_eq_bind,
      Option.bind_some]
    change List.foldlM _ (Builtin.procedure p :: opened) [event] = _
    rw [List.foldlM_cons, Event.track_of_reports he]
    rfl

theorem Trail.surfaces (h : Trail s r t log) : Event.Surfaces r log := by
  induction h with
  | done | fail | extend => exact Event.surfaces_clean (by simp)
  | @note s event h =>
    refine Event.surfaces_clean fun b e hm ↦ ?_
    rw [← List.mem_singleton.1 hm] at h
    cases h.2
  | seq _ _ ih ih' => exact ih.append ih'
  | @form s t u r log event f arguments _ _ he ih =>
    have hopen : Event.Surfaces none [.apply f arguments] := Event.surfaces_clean (by simp)
    exact hopen.append (ih.report he)
  | @call s t r event p arguments _ he =>
    have hopen : Event.Surfaces r [.call p arguments] := Event.surfaces_clean (by simp)
    exact hopen.report he

namespace Session

variable {session next : Session} {depth : Nat} {line : String} {reply : Reply}

/-- The calls of built-ins that a line makes are well bracketed, and no error is lost on the way: if
one call fails, all that are still open fail with the same error, and so does the line. -/
theorem log_wellBracketed_of_run (h : session.run depth .trace line = .ok (reply, next)) :
    Event.WellBracketed reply.log ∧
    (∀ text, reply.answer = .ok text → ∀ b e, .failed b e ∉ reply.log) ∧
    ∀ before b e after, reply.log = before ++ .failed b e :: after →
      (∀ event ∈ after, ∃ b', event = .failed b' e) ∧ reply.answer = .error e := by
  rw [run] at h
  cases hr : Eval.answerText depth line session.global .trace session.store with
  | error halted =>
    rw [hr] at h
    cases h
  | ok run =>
    rw [hr] at h
    cases h
    have ht := trails_answerText depth line session.global session.store run hr
    refine ⟨ht.foldlM_track (by simp [Event.Waiting]), fun text ha ↦ ?_, ?_⟩
    · have hnone : run.failure = none := by
        rw [Run.failure, show run.result = .ok text from ha]
      exact (hnone ▸ ht.surfaces).clean
    · intro before b e after hlog
      dsimp only at hlog
      have hs := ht.surfaces
      rw [hlog] at hs
      obtain ⟨hf, hafter⟩ := hs.eq_failed
      refine ⟨hafter, ?_⟩
      rw [Run.failure] at hf
      split at hf
      · cases hf
      · next e' he =>
        cases hf
        exact he

/-- A call fails inside two forms: three calls end, and with them the line. -/
theorem log_wellBracketed_of_run_failing :
    ∃ reply next, Session.new.run 9 .trace "(if (and (car 1)) 2 3)" = .ok (reply, next) ∧
      reply.answer = .error .notAPair ∧ Event.WellBracketed reply.log ∧
      reply.log.drop 11 = [.failed (.procedure .car) .notAPair,
        .failed (.form .conjunction) .notAPair, .failed (.form .conditional) .notAPair] := by
  have hrun : (Session.new.run 9 .trace "(if (and (car 1)) 2 3)").map
      (fun answered ↦ answered.1.log.drop 11) =
      .ok [.failed (.procedure .car) .notAPair, .failed (.form .conjunction) .notAPair,
        .failed (.form .conditional) .notAPair] := by
    cbv
  obtain ⟨⟨reply, next⟩, hr, hdrop⟩ := exists_of_map_eq_ok hrun
  obtain ⟨hbrackets, -, hfailed⟩ := log_wellBracketed_of_run hr
  have hlog : reply.log = reply.log.take 11 ++ .failed (.procedure .car) .notAPair ::
      [.failed (.form .conjunction) .notAPair, .failed (.form .conditional) .notAPair] := by
    rw [← hdrop, List.take_append_drop]
  exact ⟨reply, next, hr, (hfailed _ _ _ _ hlog).2, hbrackets, hdrop⟩

end Session

end MiniScheme
