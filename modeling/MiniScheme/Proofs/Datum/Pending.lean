import MiniScheme.Proofs.Datum.Reader
import MiniScheme.Proofs.Token.Symbol

namespace MiniScheme

namespace Lexer

variable {lexer lexer' : Lexer} {token : Token}

theorem current_congr (h : lexer.pending = lexer'.pending) : lexer.current = lexer'.current := by
  cases hp : lexer.pending with
  | mk tokens failure =>
    rw [hp] at h
    cases tokens with
    | nil => rw [current_of_pending_nil hp, current_of_pending_nil h.symm]
    | cons token tokens => rw [current_of_pending hp, current_of_pending h.symm]

/-- A lexer that has something to give in view does not end in an error. -/
theorem pending_ne_error (lexer : Lexer) (e : LexError) : lexer.pending ≠ ⟨[], some e⟩ := by
  intro h
  rw [pending_of_current_eq_none (current_of_pending_nil h)] at h
  cases h

theorem ofText_congr {text text' : List Char}
    (h : TokenStream.ofText text = TokenStream.ofText text') :
    (∃ e, ofText text = .error e ∧ ofText text' = .error e) ∨
      ∃ next next', ofText text = .ok next ∧ ofText text' = .ok next' ∧
        next.pending = next'.pending := by
  rw [TokenStream.ofText, TokenStream.ofText] at h
  cases hl : ofText text with
  | error e =>
    cases hl' : ofText text' with
    | error e' =>
      simp only [hl, hl'] at h
      cases h
      exact .inl ⟨e, rfl, rfl⟩
    | ok next' =>
      simp only [hl, hl'] at h
      exact absurd h.symm (pending_ne_error next' e)
  | ok next =>
    cases hl' : ofText text' with
    | error e' =>
      simp only [hl, hl'] at h
      exact absurd h (pending_ne_error next e')
    | ok next' =>
      simp only [hl, hl'] at h
      exact .inr ⟨next, next', rfl, rfl, h⟩

theorem advance_congr (h : lexer.pending = lexer'.pending) (hc : lexer.current = some token) :
    (∃ e, lexer.advance = .error e ∧ lexer'.advance = .error e) ∨
      ∃ next next', lexer.advance = .ok next ∧ lexer'.advance = .ok next' ∧
        next.pending = next'.pending := by
  have hc' := current_congr h ▸ hc
  rw [pending_of_current_eq_some hc, pending_of_current_eq_some hc'] at h
  apply ofText_congr
  have ht := congrArg TokenStream.tokens h
  have hf := congrArg TokenStream.failure h
  cases hs : TokenStream.ofText lexer.rest
  cases hs' : TokenStream.ofText lexer'.rest
  simp_all [TokenStream.prepend]

end Lexer

namespace Reading

/-- What shows of a reading: its error, or its datum and what is left. -/
def outcome {n : Nat} : Reading n → Except ReadError (Datum × TokenStream)
  | done datum lexer _ => .ok (datum, lexer.pending)
  | failed e _ => .error e

@[simp] theorem outcome_done {n : Nat} {d : Datum} {lexer : Lexer} {shorter : lexer.size < n} :
    (done d lexer shorter).outcome = .ok (d, lexer.pending) := rfl

@[simp] theorem outcome_failed {n : Nat} {e : ReadError} {lexer : Lexer} :
    (failed e lexer : Reading n).outcome = .error e := rfl

/-- The same datum or the same error, with the same to come. -/
inductive Alike {m n : Nat} : Reading m → Reading n → Prop
  | done (d : Datum) {rest rest' : Lexer} {shorter : rest.size < m} {shorter' : rest'.size < n}
      (h : rest.pending = rest'.pending) : Alike (.done d rest shorter) (.done d rest' shorter')
  | failed (e : ReadError) {rest rest' : Lexer} (h : rest.pending = rest'.pending) :
      Alike (.failed e rest) (.failed e rest')

theorem Alike.extend {m m' n n' : Nat} {r : Reading m} {r' : Reading m'} (h : r.Alike r')
    (hn : m < n) (hn' : m' < n') (f : Datum → Datum) : (r.extend hn f).Alike (r'.extend hn' f) := by
  cases h with
  | done d hp => exact .done (f d) hp
  | failed e hp => exact .failed e hp

end Reading

namespace Datum

variable {lexer next rest : Lexer} {token : Token} {e : LexError} {err : ReadError}
  {d : Datum} {atStart : Bool}

section Equations

theorem read_of_advance_eq_error (hc : lexer.current = some token) (ha : lexer.advance = .error e) :
    read lexer = .failed (.lexical e) lexer := by
  rw [read]
  grind

theorem read_closeBracket (hc : lexer.current = some (.punctuation .closeBracket))
    (ha : lexer.advance = .ok next) : read lexer = .failed .unexpectedCloseBracket next := by
  rw [read]
  grind

theorem read_dot (hc : lexer.current = some (.punctuation .dot))
    (ha : lexer.advance = .ok next) : read lexer = .failed .unexpectedDot next := by
  rw [read]
  grind

theorem read_danglingQuote (hc : lexer.current = some (.punctuation .quote))
    (ha : lexer.advance = .ok next)
    (hn : next.current = none ∨ next.current = some (.punctuation .closeBracket)) :
    read lexer = .failed .danglingQuote next := by
  rw [read]
  grind

theorem readChain_of_current_eq_none (hc : lexer.current = none) :
    readChain atStart lexer = .failed .unclosedList lexer := by
  rw [readChain]
  grind

theorem readChain_closeBracket_of_advance_eq_error
    (hc : lexer.current = some (.punctuation .closeBracket)) (ha : lexer.advance = .error e) :
    readChain atStart lexer = .failed (.lexical e) lexer := by
  rw [readChain]
  grind

theorem readChain_dot_atStart (hc : lexer.current = some (.punctuation .dot)) :
    readChain true lexer = .failed .unexpectedDot lexer := by
  rw [readChain]
  grind

theorem readChain_dot_of_advance_eq_error (hc : lexer.current = some (.punctuation .dot))
    (ha : lexer.advance = .error e) :
    readChain false lexer = .failed (.lexical e) lexer := by
  rw [readChain]
  grind

theorem readChain_dot_of_failed (hc : lexer.current = some (.punctuation .dot))
    (ha : lexer.advance = .ok next) (hr : read next = .failed err rest) :
    readChain false lexer = .failed err rest := by
  rw [readChain]
  grind

theorem readChain_dot_of_done {shorter} (hc : lexer.current = some (.punctuation .dot))
    (ha : lexer.advance = .ok next) (hr : read next = .done d rest shorter)
    (hn : rest.current ≠ some (.punctuation .closeBracket)) :
    readChain false lexer = .failed .badDottedPair rest := by
  rw [readChain]
  grind

theorem readChain_dot_of_done_error {shorter} (hc : lexer.current = some (.punctuation .dot))
    (ha : lexer.advance = .ok next) (hr : read next = .done d rest shorter)
    (hc' : rest.current = some (.punctuation .closeBracket)) (ha' : rest.advance = .error e) :
    readChain false lexer = .failed (.lexical e) rest := by
  rw [readChain]
  grind

theorem exists_readChain_dot {shorter} {last : Lexer}
    (hc : lexer.current = some (.punctuation .dot)) (ha : lexer.advance = .ok next)
    (hr : read next = .done d rest shorter)
    (hc' : rest.current = some (.punctuation .closeBracket)) (ha' : rest.advance = .ok last) :
    ∃ shorter', readChain false lexer = .done d last shorter' := by
  have hlt := Lexer.size_lt_of_advance hc ha
  have hlt' := Lexer.size_lt_of_advance hc' ha'
  refine ⟨by omega, ?_⟩
  rw [readChain]
  grind

theorem readChain_of_failed (hc : lexer.current = some token) (ht : ¬ token.EndsData)
    (hr : read lexer = .failed err rest) : readChain atStart lexer = .failed err rest := by
  rw [readChain]
  grind [Token.EndsData]

theorem readChain_of_done {shorter} (hc : lexer.current = some token) (ht : ¬ token.EndsData)
    (hr : read lexer = .done d rest shorter) :
    readChain atStart lexer = (readChain false rest).extend shorter (cons d) := by
  rw [readChain]
  grind [Token.EndsData]

end Equations

/-- Behind a dot, a datum and the closing bracket are left to read. -/
theorem alike_readChain_dot {lexer' : Lexer} (h : lexer.pending = lexer'.pending)
    (hc : lexer.current = some (.punctuation .dot))
    (hread : ∀ next next', lexer.advance = .ok next → next.pending = next'.pending →
      (read next).Alike (read next')) :
    (readChain false lexer).Alike (readChain false lexer') := by
  have hc' : lexer'.current = some (.punctuation .dot) := Lexer.current_congr h ▸ hc
  rcases Lexer.advance_congr h hc with ⟨e, ha, ha'⟩ | ⟨next, next', ha, ha', hp⟩
  · rw [readChain_dot_of_advance_eq_error hc ha, readChain_dot_of_advance_eq_error hc' ha']
    exact .failed _ h
  have htail := hread next next' ha hp
  generalize hr : read next = r, hr' : read next' = r' at htail
  cases htail with
  | failed e hp' =>
    rw [readChain_dot_of_failed hc ha hr, readChain_dot_of_failed hc' ha' hr']
    exact .failed e hp'
  | @done d rest rest' shorter shorter' hp' =>
    have hcurrent := Lexer.current_congr hp'
    by_cases hb : rest.current = some (.punctuation .closeBracket)
    · have hb' := hcurrent ▸ hb
      rcases Lexer.advance_congr hp' hb with ⟨e, hl, hl'⟩ | ⟨last, last', hl, hl', hpl⟩
      · rw [readChain_dot_of_done_error hc ha hr hb hl,
          readChain_dot_of_done_error hc' ha' hr' hb' hl']
        exact .failed _ hp'
      · obtain ⟨_, hd⟩ := exists_readChain_dot hc ha hr hb hl
        obtain ⟨_, hd'⟩ := exists_readChain_dot hc' ha' hr' hb' hl'
        rw [hd, hd']
        exact .done d hpl
    · rw [readChain_dot_of_done hc ha hr hb, readChain_dot_of_done hc' ha' hr' (hcurrent ▸ hb)]
      exact .failed _ hp'

mutual

/-- What comes of reading, and where it stops, depends on nothing but what is to come. -/
theorem alike_read (lexer lexer' : Lexer) (h : lexer.pending = lexer'.pending) :
    (read lexer).Alike (read lexer') := by
  have hcurrent := Lexer.current_congr h
  cases hc : lexer.current with
  | none =>
    rw [read_of_current_eq_none hc, read_of_current_eq_none (hcurrent ▸ hc)]
    exact .failed _ h
  | some token =>
    have hc' : lexer'.current = some token := hcurrent ▸ hc
    rcases Lexer.advance_congr h hc with ⟨e, ha, ha'⟩ | ⟨next, next', ha, ha', hp⟩
    · rw [read_of_advance_eq_error hc ha, read_of_advance_eq_error hc' ha']
      exact .failed _ h
    · have hlt := Lexer.size_lt_of_advance hc ha
      rcases token with (_ | _ | _ | _) | name | n
      case punctuation.openBracket =>
        rw [read_openBracket hc ha, read_openBracket hc' ha']
        exact (alike_readChain true next next' hp).extend _ _ id
      case punctuation.closeBracket =>
        rw [read_closeBracket hc ha, read_closeBracket hc' ha']
        exact .failed _ hp
      case punctuation.dot =>
        rw [read_dot hc ha, read_dot hc' ha']
        exact .failed _ hp
      case punctuation.quote =>
        have hn := Lexer.current_congr hp
        by_cases hd : next.current = none ∨ next.current = some (.punctuation .closeBracket)
        · rw [read_danglingQuote hc ha hd, read_danglingQuote hc' ha' (hn ▸ hd)]
          exact .failed _ hp
        · obtain ⟨hsome, hne⟩ := not_or.1 hd
          obtain ⟨t, ht⟩ := Option.ne_none_iff_exists'.1 hsome
          have hb : t ≠ .punctuation .closeBracket := fun he ↦ hne (he ▸ ht)
          rw [read_quote hc ha ht hb, read_quote hc' ha' (hn ▸ ht) hb]
          exact (alike_read next next' hp).extend _ _ quoted
      case symbol =>
        rw [read_symbol hc ha, read_symbol hc' ha']
        exact .done _ hp
      case constant =>
        rw [read_constant hc ha, read_constant hc' ha']
        exact .done _ hp
termination_by (lexer.size, 0)

theorem alike_readChain (atStart : Bool) (lexer lexer' : Lexer)
    (h : lexer.pending = lexer'.pending) :
    (readChain atStart lexer).Alike (readChain atStart lexer') := by
  have hcurrent := Lexer.current_congr h
  cases hc : lexer.current with
  | none =>
    rw [readChain_of_current_eq_none hc, readChain_of_current_eq_none (hcurrent ▸ hc)]
    exact .failed _ h
  | some token =>
    have hc' : lexer'.current = some token := hcurrent ▸ hc
    by_cases ht : token.EndsData
    · rcases ht with rfl | rfl
      · rcases Lexer.advance_congr h hc with ⟨e, ha, ha'⟩ | ⟨next, next', ha, ha', hp⟩
        · rw [readChain_closeBracket_of_advance_eq_error hc ha,
            readChain_closeBracket_of_advance_eq_error hc' ha']
          exact .failed _ h
        · rw [readChain_closeBracket hc ha, readChain_closeBracket hc' ha']
          exact .done _ hp
      · cases atStart with
        | true =>
          rw [readChain_dot_atStart hc, readChain_dot_atStart hc']
          exact .failed _ h
        | false => exact alike_readChain_dot h hc fun next next' ha hp ↦
            have hlt := Lexer.size_lt_of_advance hc ha
            alike_read next next' hp
    · have hfirst := alike_read lexer lexer' h
      generalize hr : read lexer = r, hr' : read lexer' = r' at hfirst
      cases hfirst with
      | failed e hp =>
        rw [readChain_of_failed hc ht hr, readChain_of_failed hc' ht hr']
        exact .failed e hp
      | @done d rest rest' shorter shorter' hp =>
        rw [readChain_of_done hc ht hr, readChain_of_done hc' ht hr']
        exact (alike_readChain false rest rest' hp).extend _ _ (cons d)
termination_by (lexer.size, 1)

end

/-- Texts with the same tokens are read alike, or rejected with the same error. -/
theorem ofText_congr {text text' : String}
    (h : TokenStream.ofText text.toList = TokenStream.ofText text'.toList) :
    ofText text = ofText text' := by
  rw [ofText, ofText]
  rcases Lexer.ofText_congr h with ⟨e, hl, hl'⟩ | ⟨lexer, lexer', hl, hl', hp⟩
  · rw [hl, hl']
  · rw [hl, hl']
    dsimp only
    have hread := alike_read lexer lexer' hp
    generalize read lexer = r, read lexer' = r' at hread
    cases hread with
    | failed e hp' => rfl
    | done d hp' =>
      dsimp only
      rw [Lexer.current_congr hp']

/-- An error is passed on by what encloses the datum. -/
theorem outcome_extend_ne {m n : Nat} {r : Reading m} (hr : r.outcome ≠ .error err) (h : m < n)
    (f : Datum → Datum) : (r.extend h f).outcome ≠ .error err := by
  cases r with
  | done => simp [Reading.extend]
  | failed => exact hr

theorem readChain_dot_ne_trailingInput (hc : lexer.current = some (.punctuation .dot))
    (ha : lexer.advance = .ok next) (hr : (read next).outcome ≠ .error (.trailingInput token)) :
    (readChain false lexer).outcome ≠ .error (.trailingInput token) := by
  cases hd : read next with
  | failed e rest =>
    rw [readChain_dot_of_failed hc ha hd]
    rwa [hd] at hr
  | done d rest shorter =>
    by_cases hb : rest.current = some (.punctuation .closeBracket)
    · cases hl : rest.advance with
      | error e => simp [readChain_dot_of_done_error hc ha hd hb hl]
      | ok last =>
        obtain ⟨_, hlast⟩ := exists_readChain_dot hc ha hd hb hl
        simp [hlast]
    · simp [readChain_dot_of_done hc ha hd hb]

mutual

/-- Only a text as a whole can have something left over. -/
theorem read_ne_trailingInput (lexer : Lexer) :
    (read lexer).outcome ≠ .error (.trailingInput token) := by
  cases hc : lexer.current with
  | none => simp [read_of_current_eq_none hc]
  | some t =>
    cases ha : lexer.advance with
    | error e => simp [read_of_advance_eq_error hc ha]
    | ok next =>
      have hlt := Lexer.size_lt_of_advance hc ha
      rcases t with (_ | _ | _ | _) | name | n
      case punctuation.openBracket =>
        rw [read_openBracket hc ha]
        exact outcome_extend_ne (readChain_ne_trailingInput true next) _ _
      case punctuation.closeBracket => simp [read_closeBracket hc ha]
      case punctuation.dot => simp [read_dot hc ha]
      case punctuation.quote =>
        by_cases hd : next.current = none ∨ next.current = some (.punctuation .closeBracket)
        · simp [read_danglingQuote hc ha hd]
        · obtain ⟨hsome, hne⟩ := not_or.1 hd
          obtain ⟨t, ht⟩ := Option.ne_none_iff_exists'.1 hsome
          rw [read_quote hc ha ht fun he ↦ hne (he ▸ ht)]
          exact outcome_extend_ne (read_ne_trailingInput next) _ _
      case symbol => simp [read_symbol hc ha]
      case constant => simp [read_constant hc ha]
termination_by (lexer.size, 0)

theorem readChain_ne_trailingInput (atStart : Bool) (lexer : Lexer) :
    (readChain atStart lexer).outcome ≠ .error (.trailingInput token) := by
  cases hc : lexer.current with
  | none => simp [readChain_of_current_eq_none hc]
  | some t =>
    by_cases ht : t.EndsData
    · cases ha : lexer.advance with
      | error e =>
        rcases ht with rfl | rfl
        · simp [readChain_closeBracket_of_advance_eq_error hc ha]
        · cases atStart with
          | true => simp [readChain_dot_atStart hc]
          | false => simp [readChain_dot_of_advance_eq_error hc ha]
      | ok next =>
        have hlt := Lexer.size_lt_of_advance hc ha
        rcases ht with rfl | rfl
        · simp [readChain_closeBracket hc ha]
        · cases atStart with
          | true => simp [readChain_dot_atStart hc]
          | false => exact readChain_dot_ne_trailingInput hc ha (read_ne_trailingInput next)
    · have hr := read_ne_trailingInput lexer
      cases hd : read lexer with
      | failed e rest =>
        rw [readChain_of_failed hc ht hd]
        rwa [hd] at hr
      | done d rest shorter =>
        rw [readChain_of_done hc ht hd]
        exact outcome_extend_ne (readChain_ne_trailingInput false rest) _ _
termination_by (lexer.size, 1)

end

/-- What is left over comes from the lexer. -/
theorem exists_denotes_of_trailingInput {text : String}
    (h : ofText text = .error (.trailingInput token)) :
    ∃ lexeme longer, Lexeme.Denotes lexeme longer token := by
  rw [ofText] at h
  split at h
  · cases h
  · next lexer hl =>
    split at h
    · next e rest hr =>
      have hne : (read lexer).outcome ≠ .error (.trailingInput token) :=
        read_ne_trailingInput lexer
      rw [hr] at hne
      cases h
      exact absurd rfl hne
    · next d rest shorter hr =>
      obtain ⟨ts, -, hp⟩ := derives_of_read lexer hr
      split at h
      · cases h
      · next hc =>
        cases h
        have hmem : token ∈ (TokenStream.ofText text.toList).tokens := by
          rw [TokenStream.ofText_eq_pending hl, hp, Lexer.pending_of_current_eq_some hc]
          simp [TokenStream.prepend]
        exact TokenStream.exists_denotes hmem

end Datum

end MiniScheme
