import MiniScheme.Proofs.Datum.Reader
import MiniScheme.Datum.Step

namespace MiniScheme

open Text

namespace Datum

/-- Trees whose written form can be read back: no procedures, and symbols that are lexemes. -/
inductive Readable : Datum → Prop
  | nil : Readable nil
  | integer (n : Int64) : Readable (integer n)
  | symbol {name : String} {longer : Char → Bool}
      (h : Lexeme.Denotes name.toList longer (.symbol name)) : Readable (symbol name)
  | cons {d e : Datum} (hd : Readable d) (he : Readable e) : Readable (cons d e)

variable {d e : Datum} {rest : List Char}

theorem endsRun_tailText (P : Address → List String) (e : Datum) (rest : List Char) :
    EndsRun Lexeme.isSymbolInner ((e.tailText P).toList ++ rest) := by
  cases e with
  | atom a =>
    cases a <;> simp [tailText, EndsRun, Lexeme.isSymbolInner, Lexeme.isSymbolStart]
  | cons d e => simp [tailText, EndsRun, Lexeme.isSymbolInner, Lexeme.isSymbolStart]

variable {a : Atom} {token : Token} {longer : Char → Bool} {P : Address → List String}

/-- After a dot, an atom of one lexeme ends the list. -/
theorem derivesChain_tailText_atom (ha : a ≠ .nil) (hd : Derives [token] (atom a))
    (h : Lexeme.Denotes (a.text P).toList longer token) (rest : List Char) :
    ∃ ts, DerivesChain false ts (atom a) ∧
      TokenStream.ofText (((atom a).tailText P).toList ++ rest) =
        (TokenStream.ofText rest).prepend ts := by
  have ht : ((atom a).tailText P).toList ++ rest =
      ' ' :: Punctuation.dot.char :: ' ' :: ((a.text P).toList ++
        Punctuation.closeBracket.char :: rest) := by
    cases a <;> simp_all [tailText, Punctuation.char]
  have he : EndsRun longer (Punctuation.closeBracket.char :: rest) :=
    h.endsRun (endsRun_cons.2 rfl)
  refine ⟨_, .dotted .nil (by simp) hd, ?_⟩
  rw [ht, TokenStream.ofText_space, TokenStream.ofText_punctuation, TokenStream.ofText_space,
    TokenStream.ofText_lexeme h he, TokenStream.ofText_punctuation]
  rfl

mutual

/-- Only what ends a symbol may come right after the written form. -/
theorem Readable.derives_text {d : Datum} (h : Readable d) (P : Address → List String)
    {rest : List Char} (hr : EndsRun Lexeme.isSymbolInner rest) :
    ∃ ts, Derives ts d ∧
      TokenStream.ofText ((d.text P).toList ++ rest) =
        (TokenStream.ofText rest).prepend ts := by
  match h with
  | .nil =>
    refine ⟨_, .list .nil, ?_⟩
    have ht : (text P Datum.nil).toList ++ rest =
        Punctuation.openBracket.char :: Punctuation.closeBracket.char :: rest := by
      simp [text, Atom.text, Punctuation.char]
    rw [ht, TokenStream.ofText_punctuation, TokenStream.ofText_punctuation]
    rfl
  | .integer n =>
    have hd := Lexeme.denotes_integer n
    exact ⟨_, .constant n, TokenStream.ofText_lexeme hd (hd.endsRun hr)⟩
  | .symbol hd => exact ⟨_, .symbol _, TokenStream.ofText_lexeme hd (hd.endsRun hr)⟩
  | .cons (d := d) (e := e) hd he =>
    obtain ⟨ts, ht, hd⟩ := hd.derives_text P (endsRun_tailText P e rest)
    obtain ⟨us, hu, he⟩ := he.derives_tailText P rest
    refine ⟨_, (DerivesChain.cons ht hu).derives, ?_⟩
    have ht : (text P (Datum.cons d e)).toList ++ rest =
      Punctuation.openBracket.char :: ((d.text P).toList ++ ((e.tailText P).toList ++ rest)) := by
      simp [text, Punctuation.char]
    rw [ht, TokenStream.ofText_punctuation, hd, he]
    simp

/-- Anything may come after the written form of a chain, which ends in a bracket. -/
theorem Readable.derives_tailText {d : Datum} (h : Readable d) (P : Address → List String)
    (rest : List Char) :
    ∃ ts, DerivesChain false ts d ∧
      TokenStream.ofText ((d.tailText P).toList ++ rest) =
        (TokenStream.ofText rest).prepend ts := by
  match h with
  | .nil =>
    refine ⟨_, .close .nil, ?_⟩
    have ht : (tailText P Datum.nil).toList ++ rest = Punctuation.closeBracket.char :: rest := by
      simp [tailText, Punctuation.char]
    rw [ht, TokenStream.ofText_punctuation]
    rfl
  | .integer n =>
    exact derivesChain_tailText_atom (by simp) (.constant n) (Lexeme.denotes_integer n) rest
  | .symbol hd => exact derivesChain_tailText_atom (by simp) (.symbol _) hd rest
  | .cons (d := d) (e := e) hd he =>
    obtain ⟨ts, ht, hd⟩ := hd.derives_text P (endsRun_tailText P e rest)
    obtain ⟨us, hu, he⟩ := he.derives_tailText P rest
    refine ⟨_, DerivesChain.cons ht hu, ?_⟩
    have ht : (tailText P (Datum.cons d e)).toList ++ rest =
      ' ' :: ((d.text P).toList ++ ((e.tailText P).toList ++ rest)) := by simp [tailText]
    rw [ht, TokenStream.ofText_space, hd, he]
    simp

end

end Datum

/-- The words in order, with blanks between any two of them and perhaps around them all. -/
inductive Spaced : List (List Char) → List Char → Prop
  | nil {blanks : List Char} (hb : AllBlank blanks) : Spaced [] blanks
  | cons {blanks word rest : List Char} {words : List (List Char)} (hb : AllBlank blanks)
      (hr : Spaced words rest) (hs : words ≠ [] → ∃ c ∈ rest.head?, isBlank c = true) :
      Spaced (word :: words) (blanks ++ (word ++ rest))

theorem Spaced.endsRun {words : List (List Char)} {text : List Char} (h : Spaced words text)
    (hs : words ≠ [] → ∃ c ∈ text.head?, isBlank c = true) :
    EndsRun Lexeme.isSymbolInner text := by
  cases h with
  | nil hb => exact Lexeme.endsRun_of_allBlank hb
  | cons hb hr hs' =>
    obtain ⟨c, hc, hblank⟩ := hs (List.cons_ne_nil _ _)
    intro c' hc'
    rw [Option.mem_unique hc' hc]
    exact Lexeme.isSymbolInner_of_isBlank hblank

/-- Written forms with blanks between them are cut into the tokens of each of them. -/
theorem Spaced.derivesAll {P : Address → List String} {ds : List Datum} {text : List Char}
    (h : Spaced (ds.map fun d ↦ (d.text P).toList) text) (hd : ∀ d ∈ ds, d.Readable) :
    ∃ ts, DerivesAll ts ds ∧ TokenStream.ofText text = ⟨ts, none⟩ := by
  induction ds generalizing text with
  | nil =>
    cases h with
    | nil hb =>
      have ht := TokenStream.ofText_blank hb []
      rw [List.append_nil, TokenStream.ofText_nil] at ht
      exact ⟨_, .nil, ht⟩
  | cons d ds ih =>
    cases h with
    | cons hb hr hs =>
      obtain ⟨us, hu, he⟩ := ih hr fun e he ↦ hd e (List.mem_cons_of_mem d he)
      obtain ⟨ts, ht, he'⟩ := (hd d List.mem_cons_self).derives_text P (hr.endsRun hs)
      refine ⟨_, .cons ht hu, ?_⟩
      rw [TokenStream.ofText_blank hb, he', he, TokenStream.prepend_mk]

/-- Reading again and again gives one datum after another, and then the end. -/
theorem replies_of_derivesAll {ts : List Token} {ds : List Datum} (h : DerivesAll ts ds)
    {lexer : Lexer} (hp : lexer.pending = ⟨ts, none⟩) :
    lexer.replies (List.replicate ds.length LexerStep.read ++ [LexerStep.atEnd, .read]) =
      ds.map LexerReply.datum ++ [LexerReply.flag true, .failed .endOfInput] := by
  induction ds generalizing ts lexer with
  | nil =>
    cases h
    have hc := Lexer.current_of_pending_nil hp
    have hstep : lexer.perform .read = (.failed .endOfInput, lexer) := by
      rw [Lexer.perform, Datum.read_of_current_eq_none hc]
    rw [List.length_nil, List.replicate_zero, List.nil_append, Lexer.replies_cons,
      Lexer.replies_cons, Lexer.perform, hstep, Lexer.atEnd, hc]
    rfl
  | cons d ds ih =>
    cases h with
    | cons hd hs =>
      obtain ⟨next, shorter, hr, hn⟩ := Datum.reads_of_derives hd hp (.inr rfl)
      have hstep : lexer.perform .read = (.datum d, next) := by rw [Lexer.perform, hr]
      rw [List.length_cons, List.replicate_succ, List.cons_append, Lexer.replies_cons, hstep,
        ih hs hn]
      rfl

namespace Store

variable {s t : Store} {v w : Value} {d : Datum}

/-- Acyclic values of the empty list, numbers, symbols that are lexemes, and pairs. -/
def Readable (s : Store) (v : Value) : Prop := ∃ d, s.Unfolds v d ∧ d.Readable

def loadAll (s : Store) : List Datum → List Value × Store
  | [] => ([], s)
  | d :: ds =>
    let (v, s) := s.load d
    let (vs, s) := s.loadAll ds
    (v :: vs, s)

theorem loadAll_cons (s : Store) (d : Datum) (ds : List Datum) :
    s.loadAll (d :: ds) =
      ((s.load d).1 :: ((s.load d).2.loadAll ds).1, ((s.load d).2.loadAll ds).2) := rfl

theorem growsTo_loadAll (s : Store) (ds : List Datum) : s.GrowsTo (s.loadAll ds).2 := by
  induction ds generalizing s with
  | nil => exact .refl s
  | cons d ds ih =>
    rw [loadAll_cons]
    exact (growsTo_load s d).trans (ih _)

/-- Whatever else is loaded with it, a loaded datum equals the values that unfold to it. -/
theorem forall₂_equal_loadAll {vs : List Value} {ds : List Datum}
    (h : List.Forall₂ s.Unfolds vs ds) :
    List.Forall₂ (fun v w ↦ (s.loadAll ds).2.equal v w = true) vs (s.loadAll ds).1 := by
  have hall {t : Store} (hg : s.GrowsTo t) :
      List.Forall₂ (fun v w ↦ (t.loadAll ds).2.equal v w = true) vs (t.loadAll ds).1 := by
    induction h generalizing t with
    | nil => exact .nil
    | @cons v d vs ds hv h ih =>
      rw [loadAll_cons]
      have hl := growsTo_load t d
      have hr := growsTo_loadAll (t.load d).2 ds
      refine .cons ?_ (ih (hg.trans hl))
      exact (hv.grow ((hg.trans hl).trans hr)).equal ((unfolds_load t d).grow hr)
  exact hall (.refl s)

theorem exists_forall₂_unfolds {vs : List Value} (hv : ∀ v ∈ vs, s.Readable v) :
    ∃ ds, List.Forall₂ s.Unfolds vs ds ∧ ∀ d ∈ ds, d.Readable := by
  induction vs with
  | nil => exact ⟨[], .nil, by simp⟩
  | cons v vs ih =>
    obtain ⟨d, hd, hr⟩ := hv v List.mem_cons_self
    obtain ⟨ds, hds, hrs⟩ := ih fun w hw ↦ hv w (List.mem_cons_of_mem v hw)
    exact ⟨d :: ds, .cons hd hds, List.forall_mem_cons.2 ⟨hr, hrs⟩⟩

theorem map_text_eq {vs : List Value} {ds : List Datum} (h : List.Forall₂ s.Unfolds vs ds) :
    vs.map (fun v ↦ (s.text v).toList) =
      ds.map fun d ↦ (d.text fun c ↦ (s.closure c).parameters).toList := by
  induction h with
  | nil => rfl
  | cons hv h ih => rw [List.map_cons, List.map_cons, hv.text_eq, ih]

/-- What is written reads back as an equal object. -/
theorem Readable.exists_ofText (h : s.Readable v) :
    ∃ d, Datum.ofText (s.text v) = .ok d ∧ s.Unfolds v d ∧
      (s.load d).2.equal (s.load d).1 v = true := by
  obtain ⟨d, hd, hr⟩ := h
  obtain ⟨ts, ht, he⟩ := hr.derives_text (fun c ↦ (s.closure c).parameters) endsRun_nil
  refine ⟨d, ?_, hd, (unfolds_load s d).equal (hd.grow (growsTo_load s d))⟩
  refine Datum.ofText_eq_ok_iff.2 ⟨ts, TokenStream.tokenize_eq_ok_iff.2 ?_, ht⟩
  rw [hd.text_eq, ← List.append_nil (String.toList _), he, TokenStream.ofText_nil]
  simp

end Store

/-- Written forms with blanks between them read back as equal objects, in order and to the end. -/
theorem replies_of_spaced {s : Store} {vs : List Value} {text : String}
    (hv : ∀ v ∈ vs, s.Readable v)
    (ht : Spaced (vs.map fun v ↦ (s.text v).toList) text.toList) :
    (∃ lexer ds, Lexer.ofText text.toList = .ok lexer ∧
      lexer.replies (List.replicate vs.length LexerStep.read ++ [LexerStep.atEnd, .read]) =
        ds.map LexerReply.datum ++ [LexerReply.flag true, .failed .endOfInput] ∧
      List.Forall₂ (fun v w ↦ (s.loadAll ds).2.equal v w = true) vs (s.loadAll ds).1) ∧
    ∀ v ∈ vs, ∃ d, Datum.ofText (s.text v) = .ok d ∧
      (s.load d).2.equal (s.load d).1 v = true := by
  constructor
  · obtain ⟨ds, hds, hr⟩ := Store.exists_forall₂_unfolds hv
    rw [Store.map_text_eq hds] at ht
    obtain ⟨ts, hd, hp⟩ := ht.derivesAll hr
    obtain ⟨lexer, hl, hp⟩ := TokenStream.exists_lexer_of_ofText hp
    refine ⟨lexer, ds, hl, ?_, Store.forall₂_equal_loadAll hds⟩
    rw [hds.length_eq]
    exact replies_of_derivesAll hd hp
  · intro v hm
    obtain ⟨d, hd, -, he⟩ := (hv v hm).exists_ofText
    exact ⟨d, hd, he⟩

/-- A dotted pair, a list that has it twice, and a quoted symbol. -/
def sharing : Store where
  pairs := #[⟨.symbol "a", .integer Int64.minValue⟩, ⟨.pair 0, .pair 0⟩, ⟨.symbol "x", .nil⟩,
    ⟨.symbol "quote", .pair 2⟩]
  closures := #[]
  scopes := #[]

def sharingText : String := "\n((a . -9223372036854775808) a . -9223372036854775808)\t (quote x)"

theorem replies_of_spaced_sharing :
    (∀ v ∈ [Value.pair 1, .pair 3], sharing.Readable v) ∧
    Spaced ([Value.pair 1, .pair 3].map fun v ↦ (sharing.text v).toList) sharingText.toList ∧
    ∃ lexer ds, Lexer.ofText sharingText.toList = .ok lexer ∧
      lexer.replies [.read, .read, .atEnd, .read] =
        ds.map LexerReply.datum ++ [LexerReply.flag true, .failed .endOfInput] ∧
      List.Forall₂ (fun v w ↦ (sharing.loadAll ds).2.equal v w = true) [.pair 1, .pair 3]
        (sharing.loadAll ds).1 := by
  have ha : (Datum.symbol "a").Readable :=
    .symbol (.symbol (by decide : Lexeme.isSymbolStart 'a' = true) fun _ h ↦ nomatch h)
  have hx : (Datum.symbol "x").Readable :=
    .symbol (.symbol (by decide : Lexeme.isSymbolStart 'x' = true) fun _ h ↦ nomatch h)
  have hq : (Datum.symbol "quote").Readable :=
    .symbol (.symbol (by decide : Lexeme.isSymbolStart 'q' = true)
      (List.all_eq_true.1 (by decide : ['u', 'o', 't', 'e'].all Lexeme.isSymbolInner = true)))
  have h₀ : sharing.Unfolds (.pair 0) (.cons (.symbol "a") (.integer Int64.minValue)) :=
    .pair (by decide) (.atom _) (.atom _)
  have h₂ : sharing.Unfolds (.pair 2) (.cons (.symbol "x") .nil) :=
    .pair (by decide) (.atom _) (.atom _)
  have hv : ∀ v ∈ [Value.pair 1, .pair 3], sharing.Readable v := by
    simp only [List.forall_mem_cons]
    refine ⟨⟨_, .pair (by decide) h₀ h₀, ?_⟩, ⟨_, .pair (by decide) (.atom _) h₂, ?_⟩, by simp⟩
    · exact .cons (.cons ha (.integer _)) (.cons ha (.integer _))
    · exact .cons hq (.cons hx .nil)
  have ht : Spaced ([Value.pair 1, .pair 3].map fun v ↦ (sharing.text v).toList)
      sharingText.toList := by
    have ht₁ : sharing.text (.pair 1) =
        "((a . -9223372036854775808) a . -9223372036854775808)" := by cbv
    have ht₃ : sharing.text (.pair 3) = "(quote x)" := by cbv
    have hs : sharingText.toList = ['\n'] ++
        ("((a . -9223372036854775808) a . -9223372036854775808)".toList ++
          (['\t', ' '] ++ ("(quote x)".toList ++ []))) := by cbv
    simp only [List.map_cons, List.map_nil, ht₁, ht₃]
    rw [hs]
    refine .cons (List.all_eq_true.1 (by decide : ['\n'].all isBlank = true)) ?_
      fun _ ↦ ⟨'\t', rfl, rfl⟩
    refine .cons (List.all_eq_true.1 (by decide : ['\t', ' '].all isBlank = true)) ?_
      fun hn ↦ absurd rfl hn
    exact .nil fun _ h ↦ nomatch h
  exact ⟨hv, ht, (replies_of_spaced hv ht).1⟩

end MiniScheme
