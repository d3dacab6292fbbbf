import MiniScheme.Proofs.Token.Lexeme
import MiniScheme.Token.Lexer

namespace MiniScheme

open Text Lexeme

/-- What a text still has to give: its tokens, and the error behind them unless they reach its
end. -/
structure TokenStream where
  tokens : List Token
  failure : Option LexError
  deriving DecidableEq

namespace TokenStream

def prepend (ts : List Token) (stream : TokenStream) : TokenStream :=
  ⟨ts ++ stream.tokens, stream.failure⟩

@[simp] theorem prepend_mk (ts us : List Token) (failure : Option LexError) :
    prepend ts ⟨us, failure⟩ = ⟨ts ++ us, failure⟩ := rfl

@[simp] theorem prepend_prepend (ts us : List Token) (stream : TokenStream) :
    prepend ts (prepend us stream) = prepend (ts ++ us) stream := by
  simp [prepend]

def toExcept (stream : TokenStream) : Except LexError (List Token) :=
  match stream.failure with
  | none => .ok stream.tokens
  | some e => .error e

/-- What a text gives with more text behind it. After an error nothing else comes. -/
def followedBy (stream next : TokenStream) : TokenStream :=
  match stream.failure with
  | none => next.prepend stream.tokens
  | some _ => stream

theorem prepend_followedBy (ts : List Token) (stream next : TokenStream) :
    (prepend ts stream).followedBy next = prepend ts (stream.followedBy next) := by
  rcases stream with ⟨us, _ | e⟩ <;> simp [followedBy]

theorem toExcept_prepend (ts : List Token) (stream : TokenStream) :
    (prepend ts stream).toExcept = stream.toExcept.map (ts ++ ·) := by
  rcases stream with ⟨us, _ | e⟩ <;> rfl

theorem toExcept_followedBy (stream next : TokenStream) :
    (stream.followedBy next).toExcept =
      stream.toExcept.bind fun ts ↦ next.toExcept.map (ts ++ ·) := by
  rcases stream with ⟨ts, _ | e⟩
  · exact toExcept_prepend ts next
  · rfl

end TokenStream

namespace Lexer

/-- The token in view and all that is still to come after it. -/
def pending (lexer : Lexer) : TokenStream :=
  match _hc : lexer.current with
  | none => ⟨[], none⟩
  | some token =>
    match _h : lexer.advance with
    | .error e => ⟨[token], some e⟩
    | .ok next => next.pending.prepend [token]
termination_by lexer.size
decreasing_by exact size_lt_of_advance ‹_› ‹_›

end Lexer

def TokenStream.ofText (text : List Char) : TokenStream :=
  match Lexer.ofText text with
  | .error e => ⟨[], some e⟩
  | .ok lexer => lexer.pending

namespace Lexer

variable {lexer next : Lexer} {token : Token} {tokens : List Token} {e : LexError}

/-- The token in view plays no part in what comes next. -/
theorem advance_eq_ofText (lexer : Lexer) : lexer.advance = ofText lexer.rest := rfl

theorem pending_of_current_eq_none (h : lexer.current = none) : lexer.pending = ⟨[], none⟩ := by
  rw [pending]
  split
  · rfl
  · next hc => rw [h] at hc; cases hc

theorem pending_of_current_eq_some (h : lexer.current = some token) :
    lexer.pending = (TokenStream.ofText lexer.rest).prepend [token] := by
  rw [pending, TokenStream.ofText, ← advance_eq_ofText]
  split
  · next hc => rw [h] at hc; cases hc
  · next t hc =>
    cases Option.some.inj (h.symm.trans hc)
    split
    · next he => rw [he]; rfl
    · next ho => rw [ho]

theorem ofText_of_advance_eq_ok (h : lexer.advance = .ok next) :
    TokenStream.ofText lexer.rest = next.pending := by
  rw [TokenStream.ofText, ← advance_eq_ofText, h]

theorem ofText_of_advance_eq_error (h : lexer.advance = .error e) :
    TokenStream.ofText lexer.rest = ⟨[], some e⟩ := by
  rw [TokenStream.ofText, ← advance_eq_ofText, h]

theorem pending_of_advance (hc : lexer.current = some token) (h : lexer.advance = .ok next) :
    lexer.pending = next.pending.prepend [token] := by
  rw [pending_of_current_eq_some hc, ofText_of_advance_eq_ok h]

theorem current_of_pending {failure : Option LexError}
    (h : lexer.pending = ⟨token :: tokens, failure⟩) : lexer.current = some token := by
  cases hc : lexer.current with
  | none =>
    rw [pending_of_current_eq_none hc] at h
    cases h
  | some t =>
    rw [pending_of_current_eq_some hc] at h
    cases congrArg TokenStream.tokens h
    rfl

theorem current_of_pending_nil {failure : Option LexError}
    (h : lexer.pending = ⟨[], failure⟩) : lexer.current = none := by
  cases hc : lexer.current with
  | none => rfl
  | some t =>
    rw [pending_of_current_eq_some hc] at h
    cases congrArg TokenStream.tokens h

/-- An error behind the token in view is met as soon as the lexer leaves that token. -/
theorem exists_advance_of_pending {failure : Option LexError}
    (h : lexer.pending = ⟨token :: tokens, failure⟩) (hf : tokens ≠ [] ∨ failure = none) :
    ∃ next, lexer.advance = .ok next ∧ next.pending = ⟨tokens, failure⟩ := by
  have hp := pending_of_current_eq_some (current_of_pending h)
  cases ha : lexer.advance with
  | error e =>
    rw [h, ofText_of_advance_eq_error ha] at hp
    cases hp
    simp at hf
  | ok next =>
    rw [h, ofText_of_advance_eq_ok ha] at hp
    cases hn : next.pending with
    | mk ts failure =>
      rw [hn] at hp
      cases hp
      exact ⟨next, rfl, hn⟩

theorem tokens_eq (lexer : Lexer) : lexer.tokens = lexer.pending.toExcept := by
  fun_induction tokens lexer with
  | case1 lexer hc => rw [pending_of_current_eq_none hc]; rfl
  | case2 lexer token hc e h =>
    rw [pending_of_current_eq_some hc, ofText_of_advance_eq_error h]; rfl
  | case3 lexer token hc next h ih =>
    rw [pending_of_advance hc h, ih]
    cases hn : next.pending with
    | mk ts failure => cases failure <;> rfl

end Lexer

namespace TokenStream

variable {text lexeme rest : List Char} {longer : Char → Bool} {token : Token}

theorem ofText_eq_pending {lexer : Lexer} (h : Lexer.ofText text = .ok lexer) :
    ofText text = lexer.pending := by
  rw [ofText, h]

theorem exists_lexer_of_ofText {tokens : List Token} (h : ofText text = ⟨tokens, none⟩) :
    ∃ lexer, Lexer.ofText text = .ok lexer ∧ lexer.pending = ⟨tokens, none⟩ := by
  rw [ofText] at h
  cases hl : Lexer.ofText text with
  | error e =>
    rw [hl] at h
    cases h
  | ok lexer =>
    rw [hl] at h
    exact ⟨lexer, rfl, h⟩

theorem ofText_blank {blanks : List Char} (hb : AllBlank blanks) (text : List Char) :
    ofText (blanks ++ text) = ofText text := by
  have hd : (blanks ++ text).dropWhile isBlank = text.dropWhile isBlank :=
    List.dropWhile_append_of_pos hb
  rw [ofText, ofText, Lexer.ofText, Lexer.ofText, Lexer.advance, Lexer.advance, hd]

theorem ofText_nil : ofText [] = ⟨[], none⟩ := by
  have hl : Lexer.ofText [] = .ok ⟨none, []⟩ := rfl
  rw [ofText, hl]
  exact Lexer.pending_of_current_eq_none rfl

theorem ofText_of_not_starts {c : Char} (hb : isBlank c = false) (hc : ¬ Starts c)
    (text : List Char) : ofText (c :: text) = ⟨[], some (.unexpectedCharacter c)⟩ := by
  rw [ofText, Lexer.ofText, Lexer.advance]
  simp only [List.dropWhile_cons, hb, Bool.false_eq_true, ↓reduceIte, split?_eq_none_iff.2 hc]

theorem ofText_lexeme (h : Denotes lexeme longer token) (hr : EndsRun longer rest) :
    ofText (lexeme ++ rest) = (ofText rest).prepend [token] := by
  obtain ⟨c, cs, rfl, hb⟩ := h.exists_cons
  have hs := split?_append h hr
  rw [List.cons_append] at hs ⊢
  have ha : Lexer.ofText (c :: (cs ++ rest)) = .ok ⟨some token, rest⟩ := by
    rw [Lexer.ofText, Lexer.advance]
    simp only [List.dropWhile_cons, hb, Bool.false_eq_true, ↓reduceIte, hs, ofLexeme_eq h]
  rw [ofText, ha]
  exact Lexer.pending_of_current_eq_some rfl

theorem ofText_punctuation (p : Punctuation) (text : List Char) :
    ofText (p.char :: text) = (ofText text).prepend [.punctuation p] :=
  ofText_lexeme (.punctuation p) fun _ _ ↦ rfl

theorem ofText_space (text : List Char) :
    ofText (' ' :: text) = ofText text :=
  ofText_blank (List.forall_mem_singleton.2 rfl) text

/-- No lexeme goes on into a text that cannot go on with a symbol, so the lexer comes to it as it
would to the end, unless it has failed before. -/
theorem ofText_append (hr : EndsRun isSymbolInner rest) (text : List Char) :
    ofText (text ++ rest) = (ofText text).followedBy (ofText rest) := by
  induction hn : text.length using Nat.strongRecOn generalizing text with
  | _ n ih =>
    subst hn
    cases text with
    | nil => rw [ofText_nil]; rfl
    | cons c text =>
      by_cases hc : isBlank c = true
      · have hskip (text : List Char) : ofText (c :: text) = ofText text :=
          ofText_blank (List.forall_mem_singleton.2 hc) text
        rw [List.cons_append, hskip, hskip, ih text.length (Nat.lt_succ_self _) text rfl]
      · have hblank : isBlank c = false := by simpa using hc
        by_cases hs : Starts c
        · obtain ⟨⟨lexeme, after⟩, hl⟩ := Option.ne_none_iff_exists'.1 fun hn ↦
            split?_eq_none_iff.1 hn hs
          obtain ⟨he, longer, hd, ha⟩ := split?_eq_some_iff.1 hl
          have hlt := length_lt_of_split?_eq_some hl
          have hends : EndsRun longer (after ++ rest) := by
            cases after with
            | nil => exact hd.endsRun hr
            | cons d after => exact endsRun_cons.2 (endsRun_cons.1 ha)
          rw [← he, List.append_assoc, ofText_lexeme hd hends, ofText_lexeme hd ha,
            ih after.length hlt after rfl, prepend_followedBy]
        · rw [List.cons_append, ofText_of_not_starts hblank hs, ofText_of_not_starts hblank hs]
          rfl

theorem tokenize_eq (text : String) : tokenize text = (ofText text.toList).toExcept := by
  rw [tokenize, ofText]
  cases Lexer.ofText text.toList with
  | error e => rfl
  | ok lexer => exact lexer.tokens_eq

theorem tokenize_eq_ok_iff {text : String} {tokens : List Token} :
    tokenize text = .ok tokens ↔ ofText text.toList = ⟨tokens, none⟩ := by
  rw [tokenize_eq]
  rcases ofText text.toList with ⟨ts, _ | e⟩ <;> simp [toExcept]

theorem tokenize_eq_error_iff {text : String} {e : LexError} :
    tokenize text = .error e ↔ (ofText text.toList).failure = some e := by
  rw [tokenize_eq]
  rcases ofText text.toList with ⟨ts, _ | e⟩ <;> simp [toExcept]

/-- A lexeme that what follows does not make longer. -/
theorem tokenize_lexeme_append {text rest : String} (h : Denotes text.toList longer token)
    (hr : EndsRun longer rest.toList) :
    tokenize (text ++ rest) = (tokenize rest).map (token :: ·) := by
  rw [tokenize_eq, String.toList_append, ofText_lexeme h hr, toExcept_prepend, ← tokenize_eq]
  rfl

/-- A text that is one lexeme. -/
theorem tokenize_lexeme {text : String} (h : Denotes text.toList longer token) :
    tokenize text = .ok [token] := by
  have happ : tokenize (text ++ "") = (tokenize "").map (token :: ·) :=
    tokenize_lexeme_append h endsRun_nil
  have hnil : tokenize "" = .ok [] := tokenize_eq_ok_iff.2 ofText_nil
  rwa [String.append_empty, hnil] at happ

theorem endsRun_blanks_append {blanks : List Char} (hb : AllBlank blanks) (hne : blanks ≠ [])
    (text : List Char) : EndsRun isSymbolInner (blanks ++ text) := by
  obtain ⟨c, cs, rfl⟩ := List.exists_cons_of_ne_nil hne
  exact endsRun_cons.2 (isSymbolInner_of_isBlank (hb c List.mem_cons_self))

theorem endsRun_punctuation (p : Punctuation) (text : List Char) :
    EndsRun isSymbolInner (p.char :: text) :=
  endsRun_cons.2 (by cases p <;> rfl)

end TokenStream

/-- Blanks and punctuation split a text: what is in front of them is cut into tokens as if nothing
came after it, and what is behind them as if nothing had come before. The first error in either part
is the error of the whole. -/
theorem tokenize_delimited (a b : String) :
    (∀ blanks : String, blanks ≠ "" → AllBlank blanks.toList →
      tokenize (a ++ blanks ++ b) = do
        let ts ← tokenize a
        let us ← tokenize b
        return ts ++ us) ∧
    ∀ p : Punctuation,
      tokenize (a ++ p.char.toString ++ b) = do
        let ts ← tokenize a
        let us ← tokenize b
        return ts ++ .punctuation p :: us := by
  refine ⟨fun blanks hne hb ↦ ?_, fun p ↦ ?_⟩
  · have hne : blanks.toList ≠ [] := by simpa using hne
    have hr := TokenStream.endsRun_blanks_append hb hne b.toList
    rw [TokenStream.tokenize_eq, String.toList_append, String.toList_append, List.append_assoc,
      TokenStream.ofText_append hr, TokenStream.ofText_blank hb, TokenStream.toExcept_followedBy,
      ← TokenStream.tokenize_eq, ← TokenStream.tokenize_eq]
    rfl
  · have hr := TokenStream.endsRun_punctuation p b.toList
    have htext : (a ++ p.char.toString ++ b).toList = a.toList ++ p.char :: b.toList := by
      simp [Char.toString]
    rw [TokenStream.tokenize_eq, htext, TokenStream.ofText_append hr,
      TokenStream.ofText_punctuation, TokenStream.toExcept_followedBy,
      TokenStream.toExcept_prepend, ← TokenStream.tokenize_eq, ← TokenStream.tokenize_eq]
    cases tokenize a <;> cases tokenize b <;> rfl

/-- A sign and a digit with a wide space between them. -/
theorem tokenize_delimited_sign :
    "\u3000" ≠ "" ∧ AllBlank "\u3000".toList ∧
      tokenize ("-" ++ "\u3000" ++ "5") = .ok [.symbol "-", .constant 5] := by
  have hb : AllBlank "\u3000".toList :=
    List.all_eq_true.1 (by decide : "\u3000".toList.all isBlank = true)
  have hsign : tokenize "-" = .ok [.symbol "-"] :=
    TokenStream.tokenize_lexeme (.sign (by decide : isSign '-' = true))
  have hdigit : tokenize "5" = .ok [.constant 5] :=
    TokenStream.tokenize_lexeme
      (.digits (List.cons_ne_nil '5' []) (List.forall_mem_singleton.2 rfl))
  refine ⟨by decide, hb, ?_⟩
  rw [(tokenize_delimited "-" "5").1 _ (by decide) hb, hsign, hdigit]
  rfl

end MiniScheme
