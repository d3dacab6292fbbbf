import MiniScheme.Datum.Step
import MiniScheme.Proofs.Datum.Pending
import Mathlib.Logic.Relation

namespace MiniScheme

open Relation

namespace Lexer

variable {lexer next : Lexer} {token : Token} {e : LexError}

/-- The token in view is left behind. -/
def Passes (lexer next : Lexer) : Prop :=
  ∃ token, lexer.current = some token ∧ lexer.advance = .ok next

/-- Where no token is in view the text is over. -/
def Settled (lexer : Lexer) : Prop := lexer.current = none → lexer.rest = []

theorem settled_of_advance (h : lexer.advance = .ok next) : next.Settled := by
  rw [advance] at h
  split at h
  · cases h
    exact fun _ ↦ rfl
  · split at h
    · cases h
      intro hc
      cases hc
    · cases h

theorem Settled.of_passes (hs : lexer.Settled) (h : ReflTransGen Passes lexer next) :
    next.Settled := by
  cases h with
  | refl => exact hs
  | tail _ hlast =>
    obtain ⟨_, _, ha⟩ := hlast
    exact settled_of_advance ha

/-- What is still to come is the end of what was to come. -/
theorem exists_prepend_of_passes (h : ReflTransGen Passes lexer next) :
    ∃ ts, lexer.pending = next.pending.prepend ts := by
  induction h with
  | refl => exact ⟨[], rfl⟩
  | tail _ hlast ih =>
    obtain ⟨ts, hts⟩ := ih
    obtain ⟨token, hc, ha⟩ := hlast
    exact ⟨ts ++ [token], by rw [hts, pending_of_advance hc ha, TokenStream.prepend_prepend]⟩

end Lexer

namespace Reading

/-- The lexer where reading has stopped. -/
def rest {n : Nat} : Reading n → Lexer
  | done _ lexer _ => lexer
  | failed _ lexer => lexer

@[simp] theorem rest_extend {m n : Nat} (h : m < n) (f : Datum → Datum) (r : Reading m) :
    (r.extend h f).rest = r.rest := by
  cases r <;> rfl

end Reading

namespace Datum

open Lexer

variable {lexer : Lexer}

theorem passes_readChain_dot (hc : lexer.current = some (.punctuation .dot))
    (hread : ∀ next, lexer.advance = .ok next → ReflTransGen Passes next (read next).rest) :
    ReflTransGen Passes lexer (readChain false lexer).rest := by
  cases ha : lexer.advance with
  | error e =>
    rw [readChain_dot_of_advance_eq_error hc ha]
    exact .refl
  | ok next =>
    have htail := (ReflTransGen.single ⟨_, hc, ha⟩).trans (hread next ha)
    cases hr : read next with
    | failed e rest =>
      rw [readChain_dot_of_failed hc ha hr]
      rwa [hr] at htail
    | done d rest shorter =>
      rw [hr] at htail
      by_cases hb : rest.current = some (.punctuation .closeBracket)
      · cases hl : rest.advance with
        | error e =>
          rw [readChain_dot_of_done_error hc ha hr hb hl]
          exact htail
        | ok last =>
          obtain ⟨_, hlast⟩ := exists_readChain_dot hc ha hr hb hl
          rw [hlast]
          exact htail.tail ⟨_, hb, hl⟩
      · rw [readChain_dot_of_done hc ha hr hb]
        exact htail

mutual

/-- Reading leaves one token after the other behind, however it ends. -/
theorem passes_read (lexer : Lexer) : ReflTransGen Passes lexer (read lexer).rest := by
  cases hc : lexer.current with
  | none =>
    rw [read_of_current_eq_none hc]
    exact .refl
  | some token =>
    cases ha : lexer.advance with
    | error e =>
      rw [read_of_advance_eq_error hc ha]
      exact .refl
    | ok next =>
      have hlt := Lexer.size_lt_of_advance hc ha
      have hfirst : Passes lexer next := ⟨token, hc, ha⟩
      rcases token with (_ | _ | _ | _) | name | n
      case punctuation.openBracket =>
        rw [read_openBracket hc ha, Reading.rest_extend]
        exact .head hfirst (passes_readChain true next)
      case punctuation.closeBracket =>
        rw [read_closeBracket hc ha]
        exact .single hfirst
      case punctuation.dot =>
        rw [read_dot hc ha]
        exact .single hfirst
      case punctuation.quote =>
        by_cases hd : next.current = none ∨ next.current = some (.punctuation .closeBracket)
        · rw [read_danglingQuote hc ha hd]
          exact .single hfirst
        · obtain ⟨hsome, hne⟩ := not_or.1 hd
          obtain ⟨t, ht⟩ := Option.ne_none_iff_exists'.1 hsome
          rw [read_quote hc ha ht fun he ↦ hne (he ▸ ht), Reading.rest_extend]
          exact .head hfirst (passes_read next)
      case symbol =>
        rw [read_symbol hc ha]
        exact .single hfirst
      case constant =>
        rw [read_constant hc ha]
        exact .single hfirst
termination_by (lexer.size, 0)

theorem passes_readChain (atStart : Bool) (lexer : Lexer) :
    ReflTransGen Passes lexer (readChain atStart lexer).rest := by
  cases hc : lexer.current with
  | none =>
    rw [readChain_of_current_eq_none hc]
    exact .refl
  | some token =>
    by_cases ht : token.EndsData
    · rcases ht with rfl | rfl
      · cases ha : lexer.advance with
        | error e =>
          rw [readChain_closeBracket_of_advance_eq_error hc ha]
          exact .refl
        | ok next =>
          rw [readChain_closeBracket hc ha]
          exact .single ⟨_, hc, ha⟩
      · cases atStart with
        | true =>
          rw [readChain_dot_atStart hc]
          exact .refl
        | false => exact passes_readChain_dot hc fun next ha ↦
            have hlt := Lexer.size_lt_of_advance hc ha
            passes_read next
    · have hfirst := passes_read lexer
      cases hr : read lexer with
      | failed e rest =>
        rw [readChain_of_failed hc ht hr]
        rwa [hr] at hfirst
      | done d rest shorter =>
        rw [hr] at hfirst
        rw [readChain_of_done hc ht hr, Reading.rest_extend]
        exact hfirst.trans (passes_readChain false rest)
termination_by (lexer.size, 1)

end

end Datum

namespace Lexer

variable {lexer next : Lexer} {token : Token} {step : LexerStep} {steps : List LexerStep}
  {e : LexError} {err : ReadError}

/-- The lexer when some steps have been taken. -/
def after (lexer : Lexer) (steps : List LexerStep) : Lexer :=
  steps.foldl (fun lexer step ↦ (lexer.perform step).2) lexer

theorem replies_append (lexer : Lexer) (steps more : List LexerStep) :
    lexer.replies (steps ++ more) = lexer.replies steps ++ (lexer.after steps).replies more := by
  induction steps generalizing lexer with
  | nil => rfl
  | cons step steps ih => exact congrArg ((lexer.perform step).1 :: ·) (ih _)

theorem perform_advance_of_eq_ok (h : lexer.advance = .ok next) :
    lexer.perform .advance = (.token next.current, next) := by
  rw [perform, h]

theorem perform_advance_of_eq_error (h : lexer.advance = .error e) :
    lexer.perform .advance = (.failed (.lexical e), lexer) := by
  rw [perform, h]

theorem perform_read_snd (lexer : Lexer) : (lexer.perform .read).2 = (Datum.read lexer).rest := by
  rw [perform]
  cases Datum.read lexer <;> rfl

theorem Settled.advance_eq (hs : lexer.Settled) (hc : lexer.current = none) :
    lexer.advance = .ok lexer := by
  obtain ⟨current, rest⟩ := lexer
  obtain rfl : current = none := hc
  obtain rfl : rest = [] := hs rfl
  rfl

/-- At the end of the text no step leads on. -/
theorem Settled.perform_eq (hs : lexer.Settled) (hc : lexer.current = none) (step : LexerStep) :
    (lexer.perform step).2 = lexer := by
  cases step with
  | peek | atEnd => rfl
  | advance => rw [perform_advance_of_eq_ok (hs.advance_eq hc)]
  | read => rw [perform_read_snd, Datum.read_of_current_eq_none hc, Reading.rest]

theorem Settled.after_eq (hs : lexer.Settled) (hc : lexer.current = none)
    (steps : List LexerStep) : lexer.after steps = lexer := by
  induction steps with
  | nil => rfl
  | cons step steps ih => rwa [after, List.foldl_cons, hs.perform_eq hc step]

theorem Settled.passes_perform (hs : lexer.Settled) (step : LexerStep) :
    ReflTransGen Passes lexer (lexer.perform step).2 := by
  cases step with
  | peek | atEnd => exact .refl
  | advance =>
    cases hc : lexer.current with
    | none =>
      rw [hs.perform_eq hc]
    | some token =>
      cases ha : lexer.advance with
      | error e => rw [perform_advance_of_eq_error ha]
      | ok next =>
        rw [perform_advance_of_eq_ok ha]
        exact .single ⟨token, hc, ha⟩
  | read =>
    rw [perform_read_snd]
    exact Datum.passes_read lexer

theorem Settled.passes_after (hs : lexer.Settled) (steps : List LexerStep) :
    ReflTransGen Passes lexer (lexer.after steps) := by
  induction steps generalizing lexer with
  | nil => exact .refl
  | cons step steps ih =>
    have hfirst := hs.passes_perform step
    exact hfirst.trans (ih (hs.of_passes hfirst))

theorem current_eq_head? (lexer : Lexer) : lexer.current = lexer.pending.tokens.head? := by
  cases hc : lexer.current with
  | none =>
    rw [pending_of_current_eq_none hc]
    rfl
  | some token =>
    rw [pending_of_current_eq_some hc]
    rfl

theorem pending_eq_nil_iff : lexer.pending = ⟨[], none⟩ ↔ lexer.current = none :=
  ⟨current_of_pending_nil, pending_of_current_eq_none⟩

/-- An advance fails where the token in view is the last one before an error. -/
theorem advance_eq_error_iff (hs : lexer.Settled) :
    lexer.advance = .error e ↔ ∃ token, lexer.pending = ⟨[token], some e⟩ := by
  constructor
  · intro ha
    cases hc : lexer.current with
    | none =>
      rw [hs.advance_eq hc] at ha
      cases ha
    | some token =>
      refine ⟨token, ?_⟩
      rw [pending_of_current_eq_some hc, ofText_of_advance_eq_error ha]
      rfl
  · intro h
    obtain ⟨token, hp⟩ := h
    have hc := pending_of_current_eq_some (current_of_pending hp)
    cases ha : lexer.advance with
    | error e' =>
      rw [ofText_of_advance_eq_error ha, hp] at hc
      cases hc
      rfl
    | ok next =>
      rw [ofText_of_advance_eq_ok ha, hp] at hc
      have hn : next.pending = ⟨[], some e⟩ := by
        cases h : next.pending
        rw [h] at hc
        cases hc
        rfl
      exact absurd hn (pending_ne_error next e)

/-- A failed advance fails again, as often as it is repeated. -/
theorem replies_replicate_of_advance_eq_error (h : lexer.advance = .error e) (n : Nat) :
    lexer.replies (List.replicate n .advance) = List.replicate n (.failed (.lexical e)) := by
  induction n with
  | zero => rfl
  | succ n ih =>
    rw [List.replicate_succ, replies_cons, perform_advance_of_eq_error h, ih]
    rfl

/-- What each step answers and leaves of what is pending. At the end of the text there is no token
to leave behind, and every step leaves the lexer as it is. -/
structure StepsForward (lexer : Lexer) : Prop where
  peek : lexer.perform .peek = (.token lexer.pending.tokens.head?, lexer)
  atEnd : lexer.perform .atEnd = (.flag (decide (lexer.pending = ⟨[], none⟩)), lexer)
  ended (h : lexer.pending = ⟨[], none⟩) (steps : List LexerStep) : lexer.after steps = lexer
  advance {current : Option Token} {next : Lexer}
    (h : lexer.perform .advance = (.token current, next)) :
    current = next.pending.tokens.head? ∧ (lexer.pending ≠ ⟨[], none⟩ →
      ∃ token, lexer.pending = next.pending.prepend [token])
  advance_failed {err : ReadError} {next : Lexer}
    (h : lexer.perform .advance = (.failed err, next)) :
    next = lexer ∧ ∀ n, lexer.replies (List.replicate n .advance) = List.replicate n (.failed err)
  advance_failed_iff (err : ReadError) :
    (lexer.perform .advance).1 = .failed err ↔
      ∃ token e, lexer.pending = ⟨[token], some e⟩ ∧ err = .lexical e
  read {d : Datum} {next : Lexer} (h : lexer.perform .read = (.datum d, next)) :
    ∃ ts, ts ≠ [] ∧ Derives ts d ∧ lexer.pending = next.pending.prepend ts ∧
      ∀ us d', Derives us d' → us <+: lexer.pending.tokens → us = ts ∧ d' = d
  read_failed {err : ReadError} {next : Lexer} (h : lexer.perform .read = (.failed err, next)) :
    ∃ ts, lexer.pending = next.pending.prepend ts

theorem perform_advance_eq_failed (h : lexer.perform .advance = (.failed err, next)) :
    ∃ e, lexer.advance = .error e ∧ err = .lexical e ∧ next = lexer := by
  cases ha : lexer.advance with
  | error e =>
    rw [perform_advance_of_eq_error ha] at h
    cases h
    exact ⟨e, rfl, rfl, rfl⟩
  | ok next' =>
    rw [perform_advance_of_eq_ok ha] at h
    cases h

theorem perform_advance_eq_token {current : Option Token}
    (h : lexer.perform .advance = (.token current, next)) :
    lexer.advance = .ok next ∧ current = next.current := by
  cases ha : lexer.advance with
  | error e =>
    rw [perform_advance_of_eq_error ha] at h
    cases h
  | ok next' =>
    rw [perform_advance_of_eq_ok ha] at h
    cases h
    exact ⟨rfl, rfl⟩

theorem exists_read_eq_done {d : Datum} (h : lexer.perform .read = (.datum d, next)) :
    ∃ shorter, Datum.read lexer = .done d next shorter := by
  rw [perform] at h
  cases hr : Datum.read lexer with
  | failed e rest =>
    rw [hr] at h
    cases h
  | done d' rest shorter =>
    rw [hr] at h
    cases h
    exact ⟨shorter, rfl⟩

/-- No other tokens at the front of a stream derive a datum than those that have been read. -/
theorem derives_prefix_unique {ts us : List Token} {d d' : Datum} {stream : TokenStream}
    (h : Derives ts d) (h' : Derives us d') (hu : us <+: (stream.prepend ts).tokens) :
    us = ts ∧ d' = d := by
  obtain ⟨vs, hvs⟩ := hu
  obtain ⟨hd, rfl⟩ := h'.unique h hvs
  exact ⟨List.append_cancel_right hvs, hd⟩

theorem Settled.stepsForward (hs : lexer.Settled) : lexer.StepsForward where
  peek := by rw [perform, current_eq_head?]
  atEnd := by
    have hflag : lexer.atEnd = decide (lexer.pending = ⟨[], none⟩) := by
      rw [Bool.eq_iff_iff, decide_eq_true_iff, pending_eq_nil_iff, Lexer.atEnd,
        Option.isNone_iff_eq_none]
    rw [perform, hflag]
  ended h steps := hs.after_eq (pending_eq_nil_iff.1 h) steps
  advance h := by
    obtain ⟨ha, rfl⟩ := perform_advance_eq_token h
    refine ⟨current_eq_head? _, fun hne ↦ ?_⟩
    obtain ⟨token, hc⟩ := Option.ne_none_iff_exists'.1 (mt pending_eq_nil_iff.2 hne)
    exact ⟨token, pending_of_advance hc ha⟩
  advance_failed h := by
    obtain ⟨e, ha, rfl, rfl⟩ := perform_advance_eq_failed h
    exact ⟨rfl, replies_replicate_of_advance_eq_error ha⟩
  advance_failed_iff err := by
    constructor
    · intro h
      obtain ⟨e, ha, rfl, -⟩ := perform_advance_eq_failed (Prod.ext h rfl)
      obtain ⟨token, hp⟩ := (advance_eq_error_iff hs).1 ha
      exact ⟨token, e, hp, rfl⟩
    · intro h
      obtain ⟨token, e, hp, rfl⟩ := h
      rw [perform_advance_of_eq_error ((advance_eq_error_iff hs).2 ⟨token, hp⟩)]
  read h := by
    obtain ⟨shorter, hr⟩ := exists_read_eq_done h
    obtain ⟨ts, hd, hp⟩ := Datum.derives_of_read lexer hr
    obtain ⟨token, us, hts, -⟩ := hd.exists_cons
    refine ⟨ts, hts ▸ List.cons_ne_nil token us, hd, hp, fun vs d' hd' hv ↦ ?_⟩
    exact derives_prefix_unique hd hd' (hp ▸ hv)
  read_failed h := by
    have hp := exists_prepend_of_passes (Datum.passes_read lexer)
    rwa [← perform_read_snd, h] at hp

end Lexer

/-- Whatever steps are taken, a lexer only moves forward: what is still to come is the end of what
the text has given at first, and each further step takes from its front what it answers for. -/
theorem stepsForward_of_ofText {text : String} {lexer : Lexer}
    (h : Lexer.ofText text.toList = .ok lexer) (steps : List LexerStep) :
    (∃ ts, TokenStream.ofText text.toList = (lexer.after steps).pending.prepend ts) ∧
    (lexer.after steps).StepsForward ∧
    ∀ more, lexer.replies (steps ++ more) =
      lexer.replies steps ++ (lexer.after steps).replies more := by
  have hs : lexer.Settled := Lexer.settled_of_advance h
  have hp := hs.passes_after steps
  refine ⟨?_, (hs.of_passes hp).stepsForward, lexer.replies_append steps⟩
  rw [TokenStream.ofText_eq_pending h]
  exact Lexer.exists_prepend_of_passes hp

/-- The lexer at the start of `(a . b) (1 ? 2)`. -/
def brokenOff : Lexer := ⟨some (.punctuation .openBracket), "a . b) (1 ? 2)".toList⟩

/-- After a datum and a list that is broken off, the last token before an unknown character is in
view, and stays there. -/
theorem stepsForward_of_ofText_brokenOff :
    Lexer.ofText "(a . b) (1 ? 2)".toList = .ok brokenOff ∧
      (brokenOff.after [.read, .read]).pending =
        ⟨[.constant 1], some (.unexpectedCharacter '?')⟩ ∧
      ∀ n, (brokenOff.after [.read, .read]).replies (List.replicate n .advance) =
        List.replicate n (.failed (.lexical (.unexpectedCharacter '?'))) := by
  have hl : Lexer.ofText "(a . b) (1 ? 2)".toList = .ok brokenOff := by cbv
  have hp : (brokenOff.after [.read, .read]).pending =
      ⟨[.constant 1], some (.unexpectedCharacter '?')⟩ := by
    cbv
  obtain ⟨-, hforward, -⟩ := stepsForward_of_ofText hl [.read, .read]
  have hfails := (hforward.advance_failed_iff _).2 ⟨_, _, hp, rfl⟩
  exact ⟨hl, hp, (hforward.advance_failed (Prod.ext hfails rfl)).2⟩

end MiniScheme
