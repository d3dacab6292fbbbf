import MiniScheme.Proofs.Token.Stream

namespace MiniScheme

open Text Lexeme

/-- A lexeme and the blanks right behind it. -/
structure Piece where
  lexeme : List Char
  blanks : List Char

namespace Piece

def joined (pieces : List Piece) : List Char := pieces.flatMap fun p ↦ p.lexeme ++ p.blanks

theorem joined_cons (p : Piece) (pieces : List Piece) (rest : List Char) :
    joined (p :: pieces) ++ rest = p.lexeme ++ (p.blanks ++ (joined pieces ++ rest)) := by
  simp [joined]

/-- Each lexeme stands for its token and is maximal when `rest` comes behind the last piece. -/
inductive Fit (rest : List Char) : List Piece → List Token → Prop
  | nil : Fit rest [] []
  | cons {p : Piece} {pieces : List Piece} {token : Token} {tokens : List Token}
      {longer : Char → Bool} (hd : Denotes p.lexeme longer token) (hb : AllBlank p.blanks)
      (hr : EndsRun longer (p.blanks ++ (joined pieces ++ rest))) (hf : Fit rest pieces tokens) :
      Fit rest (p :: pieces) (token :: tokens)

end Piece

/-- A way to cut up a text: the blanks in front of the first lexeme, and the pieces. -/
structure Cut where
  blanks : List Char
  pieces : List Piece

/-- Neither a blank nor a lexeme comes next. -/
def Stuck (rest : List Char) : Prop := ∀ c ∈ rest.head?, isBlank c = false ∧ ¬ Starts c

namespace Cut

def text (cut : Cut) : List Char := cut.blanks ++ Piece.joined cut.pieces

/-- The cut is one into blanks and maximal lexemes, which stand for the tokens, when `rest` comes
behind it. -/
structure Denotes (cut : Cut) (rest : List Char) (tokens : List Token) : Prop where
  blank : AllBlank cut.blanks
  fit : Piece.Fit rest cut.pieces tokens

end Cut

theorem stuck_nil : Stuck [] := by simp [Stuck]

theorem Stuck.endsRun {rest : List Char} (h : Stuck rest) : EndsRun isBlank rest :=
  fun c hc ↦ (h c hc).1

theorem not_stuck_joined {p : Piece} {pieces : List Piece} {rest : List Char}
    {longer : Char → Bool} {token : Token} (h : Lexeme.Denotes p.lexeme longer token) :
    ¬ Stuck (Piece.joined (p :: pieces) ++ rest) := by
  obtain ⟨c, cs, hc, -⟩ := h.exists_cons
  rw [hc] at h
  intro hs
  rw [Piece.joined_cons, hc] at hs
  exact (hs c rfl).2 ⟨cs, longer, token, h⟩

theorem endsRun_joined {p : Piece} {pieces : List Piece} {rest : List Char}
    {longer : Char → Bool} {token : Token} (h : Lexeme.Denotes p.lexeme longer token) :
    EndsRun isBlank (Piece.joined (p :: pieces) ++ rest) := by
  obtain ⟨c, cs, hc, hb⟩ := h.exists_cons
  rw [Piece.joined_cons, hc]
  exact endsRun_cons.2 hb

theorem eq_of_blanks_append_eq {blanks blanks' rest rest' : List Char} (hb : AllBlank blanks)
    (hb' : AllBlank blanks') (hr : EndsRun isBlank rest) (hr' : EndsRun isBlank rest')
    (h : blanks ++ rest = blanks' ++ rest') : blanks = blanks' ∧ rest = rest' := by
  have hw := takeWhile_run hb hr
  rw [h, takeWhile_run hb' hr'] at hw
  subst hw
  exact ⟨rfl, List.append_cancel_left h⟩

theorem length_le_of_blanks_append_eq {blanks blanks' rest rest' : List Char}
    (hb : AllBlank blanks) (hb' : AllBlank blanks') (hr : EndsRun isBlank rest)
    (h : blanks ++ rest = blanks' ++ rest') : rest.length ≤ rest'.length := by
  have hd : rest = rest'.dropWhile isBlank := by
    rw [← dropWhile_run hb hr, h, List.dropWhile_append_of_pos hb']
  rw [hd]
  exact (List.dropWhile_sublist _).length_le

/-- Lexemes come off a text in one way only, so pieces that end where the lexer is stuck leave no
more of the text than any others do. -/
theorem Piece.Fit.outruns {rest rest' : List Char} {pieces pieces' : List Piece}
    {tokens tokens' : List Token} (hs : Stuck rest) (hf : Fit rest pieces tokens)
    (hf' : Fit rest' pieces' tokens') {blanks blanks' : List Char} (hb : AllBlank blanks)
    (hb' : AllBlank blanks')
    (h : blanks ++ (joined pieces ++ rest) = blanks' ++ (joined pieces' ++ rest')) :
    rest.length ≤ rest'.length ∧
      (Stuck rest' → blanks = blanks' ∧ pieces = pieces' ∧ tokens = tokens') := by
  induction hf generalizing blanks blanks' pieces' tokens' with
  | nil =>
    cases hf' with
    | nil =>
      refine ⟨length_le_of_blanks_append_eq hb hb' hs.endsRun h, fun hs' ↦ ⟨?_, rfl, rfl⟩⟩
      exact (eq_of_blanks_append_eq hb hb' hs.endsRun hs'.endsRun h).1
    | cons hd hbl hr hf =>
      obtain ⟨-, he⟩ := eq_of_blanks_append_eq hb hb' hs.endsRun (endsRun_joined hd) h
      exact absurd hs (he ▸ not_stuck_joined hd)
  | @cons p pieces token tokens longer hd hbl hr hf ih =>
    cases hf' with
    | nil =>
      have hle := length_le_of_blanks_append_eq hb hb' (endsRun_joined hd) h
      rw [List.length_append] at hle
      refine ⟨Nat.le_trans (Nat.le_add_left _ _) hle, fun hs' ↦ ?_⟩
      obtain ⟨-, he⟩ := eq_of_blanks_append_eq hb hb' (endsRun_joined hd) hs'.endsRun h
      exact absurd hs' (he ▸ not_stuck_joined hd)
    | @cons p' pieces' token' tokens' longer' hd' hbl' hr' hf' =>
      obtain ⟨rfl, he⟩ :=
        eq_of_blanks_append_eq hb hb' (endsRun_joined hd) (endsRun_joined hd') h
      rw [joined_cons, joined_cons] at he
      have hp := split?_append hd hr
      rw [he, split?_append hd' hr'] at hp
      obtain ⟨hl, ht⟩ := Prod.mk.inj (Option.some.inj hp)
      obtain ⟨hle, hu⟩ := ih hf' hbl hbl' ht.symm
      refine ⟨hle, fun hs' ↦ ?_⟩
      obtain ⟨hbs, rfl, rfl⟩ := hu hs'
      obtain rfl : p = p' := by
        cases p
        cases p'
        simp_all
      exact ⟨rfl, rfl, by rw [← ofLexeme_eq hd, ofLexeme_eq hd']⟩

namespace Cut

variable {cut cut' : Cut} {rest rest' : List Char} {tokens tokens' : List Token}

theorem Denotes.length_le (h : cut.Denotes rest tokens) (hs : Stuck rest)
    (h' : cut'.Denotes rest' tokens') (he : cut.text ++ rest = cut'.text ++ rest') :
    rest.length ≤ rest'.length :=
  (h.fit.outruns hs h'.fit h.blank h'.blank (by simpa [text] using he)).1

theorem Denotes.unique (h : cut.Denotes rest tokens) (hs : Stuck rest)
    (h' : cut'.Denotes rest' tokens') (hs' : Stuck rest')
    (he : cut.text ++ rest = cut'.text ++ rest') : cut = cut' ∧ tokens = tokens' := by
  obtain ⟨hb, hp, ht⟩ :=
    (h.fit.outruns hs h'.fit h.blank h'.blank (by simpa [text] using he)).2 hs'
  cases cut
  cases cut'
  simp_all

end Cut

theorem ofText_of_stuck {rest : List Char} (h : Stuck rest) :
    TokenStream.ofText rest = ⟨[], rest.head?.map .unexpectedCharacter⟩ := by
  cases rest with
  | nil => exact TokenStream.ofText_nil
  | cons c rest =>
    obtain ⟨hb, hc⟩ := h c rfl
    exact TokenStream.ofText_of_not_starts hb hc rest

/-- Every text can be cut up to the place where the lexer is stuck, which is its end if the lexer
succeeds. -/
theorem exists_cut (text : List Char) :
    ∃ (cut : Cut) (rest : List Char) (tokens : List Token),
      text = cut.text ++ rest ∧ cut.Denotes rest tokens ∧ Stuck rest ∧
        TokenStream.ofText text = ⟨tokens, rest.head?.map .unexpectedCharacter⟩ := by
  induction hn : text.length using Nat.strongRecOn generalizing text with
  | _ n ih =>
    subst hn
    have hb := allBlank_takeWhile text
    have hr : EndsRun isBlank (text.dropWhile isBlank) := endsRun_dropWhile text
    have ht : text = text.takeWhile isBlank ++ text.dropWhile isBlank :=
      List.takeWhile_append_dropWhile.symm
    generalize text.takeWhile isBlank = blanks at hb ht
    generalize text.dropWhile isBlank = body at hr ht
    subst ht
    rw [TokenStream.ofText_blank hb]
    by_cases hs : Stuck body
    · exact ⟨⟨blanks, []⟩, body, [], by simp [Cut.text, Piece.joined], ⟨hb, .nil⟩, hs,
        ofText_of_stuck hs⟩
    · cases body with
      | nil => exact absurd stuck_nil hs
      | cons c body =>
        have hc : split? (c :: body) ≠ none := by
          intro hn
          apply hs
          intro d hd
          cases hd
          exact ⟨endsRun_cons.1 hr, split?_eq_none_iff.1 hn⟩
        obtain ⟨⟨lexeme, after⟩, hl⟩ := Option.ne_none_iff_exists'.1 hc
        obtain ⟨he, longer, hd, ha⟩ := split?_eq_some_iff.1 hl
        have hlt := length_lt_of_split?_eq_some hl
        obtain ⟨cut, rest, tokens, rfl, hcut, hrest, hstream⟩ :=
          ih after.length (by rw [List.length_append]; omega) after rfl
        rw [← he, TokenStream.ofText_lexeme hd ha, hstream]
        refine ⟨⟨blanks, ⟨lexeme, cut.blanks⟩ :: cut.pieces⟩, rest, _ :: tokens, ?_, ⟨hb, ?_⟩,
          hrest, rfl⟩
        · simp [Cut.text, Piece.joined]
        · refine .cons hd hcut.blank ?_ hcut.fit
          simpa [Cut.text] using ha

/-- The lexer cuts a text up without loss. It succeeds on exactly the texts that are blanks and
maximal lexemes throughout, of which there is only one cut, and answers with what the lexemes
stand for; on any other text it names the character that comes after the longest such part. -/
theorem tokenize_cut (text : String) :
    (∀ tokens, tokenize text = .ok tokens ↔
      ∃ cut : Cut, text.toList = cut.text ∧ cut.Denotes [] tokens) ∧
    (∀ (cut cut' : Cut) tokens tokens', text.toList = cut.text → text.toList = cut'.text →
      cut.Denotes [] tokens → cut'.Denotes [] tokens' → cut = cut' ∧ tokens = tokens') ∧
    ((¬ ∃ (cut : Cut) (tokens : _), text.toList = cut.text ∧ cut.Denotes [] tokens) →
      ∃ (cut : Cut) (c : Char) (rest : List Char) (tokens : List Token),
        text.toList = cut.text ++ c :: rest ∧ cut.Denotes (c :: rest) tokens ∧
        tokenize text = .error (.unexpectedCharacter c) ∧ isBlank c = false ∧ ¬ Starts c ∧
        ∀ (cut' : Cut) rest' tokens', text.toList = cut'.text ++ rest' →
          cut'.Denotes rest' tokens' → cut'.text.length ≤ cut.text.length) := by
  obtain ⟨cut, rest, tokens, ht, hcut, hs, hstream⟩ := exists_cut text.toList
  have hunique (cut cut' : Cut) (tokens tokens' : List Token) (h : text.toList = cut.text)
      (h' : text.toList = cut'.text) (hd : cut.Denotes [] tokens) (hd' : cut'.Denotes [] tokens') :
      cut = cut' ∧ tokens = tokens' :=
    hd.unique stuck_nil hd' stuck_nil (by rw [← h, ← h'])
  refine ⟨fun ts ↦ ⟨fun h ↦ ?_, ?_⟩, hunique, fun hno ↦ ?_⟩
  · rw [TokenStream.tokenize_eq_ok_iff, hstream] at h
    cases rest with
    | nil =>
      cases h
      exact ⟨cut, by simpa using ht, hcut⟩
    | cons c rest => cases h
  · intro h
    obtain ⟨cut', ht', hcut'⟩ := h
    obtain ⟨rfl, rfl⟩ := hcut'.unique stuck_nil hcut hs (by rw [← ht, ht', List.append_nil])
    have hr : rest = [] := by simpa [ht'] using ht
    rw [hr] at hstream
    exact TokenStream.tokenize_eq_ok_iff.2 hstream
  · cases rest with
    | nil => exact absurd ⟨cut, tokens, by simpa using ht, hcut⟩ hno
    | cons c rest =>
      obtain ⟨hb, hc⟩ := hs c rfl
      refine ⟨cut, c, rest, tokens, ht, hcut, ?_, hb, hc, fun cut' rest' tokens' ht' hcut' ↦ ?_⟩
      · rw [TokenStream.tokenize_eq_error_iff, hstream]
        rfl
      · have hle := hcut.length_le hs hcut' (by rw [← ht, ht'])
        have hlen := congrArg List.length ht
        rw [ht', List.length_append, List.length_append] at hlen
        omega

end MiniScheme
