import MiniScheme.Proofs.Datum.Forward

namespace MiniScheme

namespace Lexer

variable {lexer lexer' : Lexer}

/-- A step is answered by what is to come, and so is the next one: it leaves the same to come. -/
theorem Settled.perform_congr (hs : lexer.Settled) (hs' : lexer'.Settled)
    (h : lexer.pending = lexer'.pending) (step : LexerStep) :
    (lexer.perform step).1 = (lexer'.perform step).1 ∧
      (lexer.perform step).2.pending = (lexer'.perform step).2.pending := by
  have hcurrent := current_congr h
  cases step with
  | peek =>
    rw [perform, perform, hcurrent]
    exact ⟨rfl, h⟩
  | atEnd =>
    rw [perform, perform, Lexer.atEnd, Lexer.atEnd, hcurrent]
    exact ⟨rfl, h⟩
  | advance =>
    cases hc : lexer.current with
    | none =>
      have hc' := hcurrent ▸ hc
      rw [perform_advance_of_eq_ok (hs.advance_eq hc),
        perform_advance_of_eq_ok (hs'.advance_eq hc'), hcurrent]
      exact ⟨rfl, h⟩
    | some token =>
      rcases advance_congr h hc with ⟨e, ha, ha'⟩ | ⟨next, next', ha, ha', hp⟩
      · rw [perform_advance_of_eq_error ha, perform_advance_of_eq_error ha']
        exact ⟨rfl, h⟩
      · rw [perform_advance_of_eq_ok ha, perform_advance_of_eq_ok ha', current_congr hp]
        exact ⟨rfl, hp⟩
  | read =>
    have hread := Datum.alike_read lexer lexer' h
    rw [perform, perform]
    generalize Datum.read lexer = r, Datum.read lexer' = r' at hread
    cases hread with
    | done d hp => exact ⟨rfl, hp⟩
    | failed e hp => exact ⟨rfl, hp⟩

theorem Settled.replies_congr (hs : lexer.Settled) (hs' : lexer'.Settled)
    (h : lexer.pending = lexer'.pending) (steps : List LexerStep) :
    lexer.replies steps = lexer'.replies steps := by
  induction steps generalizing lexer lexer' with
  | nil => rfl
  | cons step steps ih =>
    obtain ⟨hreply, hp⟩ := hs.perform_congr hs' h step
    have hnext := hs.of_passes (hs.passes_perform step)
    have hnext' := hs'.of_passes (hs'.passes_perform step)
    rw [replies_cons, replies_cons, hreply, ih hnext hnext' hp]

end Lexer

/-- Nothing of a text shows but its tokens and how they end: two texts that have these in common are
both rejected with one error or both read as equal objects, and their lexers, if there are any,
answer every step alike, also those behind a failed one. -/
theorem replies_of_ofText_eq {text text' : String}
    (h : TokenStream.ofText text.toList = TokenStream.ofText text'.toList) :
    ((∃ e, Datum.ofText text = .error e ∧ Datum.ofText text' = .error e) ∨
      ∃ d d', Datum.ofText text = .ok d ∧ Datum.ofText text' = .ok d' ∧
        ∀ s : Store, ((s.load d).2.load d').2.equal (s.load d).1 ((s.load d).2.load d').1 = true) ∧
    ((∃ e, Lexer.ofText text.toList = .error e ∧ Lexer.ofText text'.toList = .error e) ∨
      ∃ lexer lexer', Lexer.ofText text.toList = .ok lexer ∧
        Lexer.ofText text'.toList = .ok lexer' ∧
        ∀ steps, lexer.replies steps = lexer'.replies steps) := by
  constructor
  · have hread := Datum.ofText_congr h
    cases hd : Datum.ofText text with
    | error e => exact .inl ⟨e, rfl, hread.symm.trans hd⟩
    | ok d =>
      refine .inr ⟨d, d, rfl, hread.symm.trans hd, fun s ↦ ?_⟩
      have hfirst := (Store.unfolds_load s d).grow (Store.growsTo_load _ d)
      exact hfirst.equal (Store.unfolds_load _ d)
  · rcases Lexer.ofText_congr h with hfailed | ⟨lexer, lexer', hl, hl', hp⟩
    · exact .inl hfailed
    · have hs : lexer.Settled := Lexer.settled_of_advance hl
      have hs' : lexer'.Settled := Lexer.settled_of_advance hl'
      exact .inr ⟨lexer, lexer', hl, hl', hs.replies_congr hs' hp⟩

/-- Two texts with one number in two spellings, of which one wraps, with different blanks and with
different text behind the unknown character. -/
def spelled : String := "(+7 a) '["

def respelled : String := "\t( 18446744073709551623\na)'[[ b"

theorem replies_of_ofText_eq_respelled :
    TokenStream.ofText spelled.toList = TokenStream.ofText respelled.toList ∧
      ∃ lexer lexer', Lexer.ofText spelled.toList = .ok lexer ∧
        Lexer.ofText respelled.toList = .ok lexer' ∧
        lexer.replies [.peek, .read, .advance, .read, .atEnd] =
          lexer'.replies [.peek, .read, .advance, .read, .atEnd] := by
  have h : TokenStream.ofText spelled.toList = TokenStream.ofText respelled.toList := by cbv
  refine ⟨h, ?_⟩
  rcases (replies_of_ofText_eq h).2 with ⟨e, he, -⟩ | ⟨lexer, lexer', hl, hl', hreplies⟩
  · have hok : (Lexer.ofText spelled.toList).isOk = true := by cbv
    rw [he] at hok
    cases hok
  · exact ⟨lexer, lexer', hl, hl', hreplies _⟩

end MiniScheme
