import MiniScheme.Proofs.Datum.Grammar
import MiniScheme.Proofs.Store.Unfold
import MiniScheme.Proofs.Token.Stream
import MiniScheme.Error
import Mathlib

namespace MiniScheme

theorem Reading.extend_eq_done {m n : Nat} {h : m < n} {f : Datum → Datum} {r : Reading m}
    {d : Datum} {lexer : Lexer} {shorter : lexer.size < n}
    (he : r.extend h f = .done d lexer shorter) :
    ∃ e shorter', r = .done e lexer shorter' ∧ d = f e := by
  cases r with
  | done e rest hs =>
    cases he
    exact ⟨e, hs, rfl, rfl⟩
  | failed => cases he

namespace Datum

mutual

theorem derives_of_read (lexer : Lexer) {d : Datum} {next : Lexer} {shorter}
    (hr : read lexer = .done d next shorter) :
    ∃ ts, Derives ts d ∧ lexer.pending = next.pending.prepend ts := by
  rw [read] at hr
  split at hr
  · cases hr
  · next token hc =>
    split at hr
    · cases hr
    · next after ha =>
      have hp := Lexer.pending_of_advance hc ha
      have hlt := Lexer.size_lt_of_advance hc ha
      dsimp only at hr
      split at hr
      · obtain ⟨e, hs, he, rfl⟩ := Reading.extend_eq_done hr
        obtain ⟨ts, ht, hp'⟩ := derives_of_readChain true after he
        exact ⟨_, ht.derives, by simp [hp, hp']⟩
      · cases hr
      · cases hr
      · split at hr
        · cases hr
        · cases hr
        · obtain ⟨e, hs, he, rfl⟩ := Reading.extend_eq_done hr
          obtain ⟨ts, ht, hp'⟩ := derives_of_read after he
          exact ⟨_, .quoted ht, by simp [hp, hp']⟩
      · cases hr
        exact ⟨_, .symbol _, hp⟩
      · cases hr
        exact ⟨_, .constant _, hp⟩
termination_by (lexer.size, 0)

theorem derives_of_readChain (atStart : Bool) (lexer : Lexer) {d : Datum} {next : Lexer} {shorter}
    (hr : readChain atStart lexer = .done d next shorter) :
    ∃ ts, DerivesChain atStart ts d ∧ lexer.pending = next.pending.prepend ts := by
  rw [readChain] at hr
  split at hr
  · cases hr
  · next hc =>
    split at hr
    · cases hr
    · next ha =>
      cases hr
      exact ⟨_, .close .nil, Lexer.pending_of_advance hc ha⟩
  · next hc =>
    split at hr
    · cases hr
    · next hb =>
      split at hr
      · cases hr
      · next after ha =>
        have hp := Lexer.pending_of_advance hc ha
        have hlt := Lexer.size_lt_of_advance hc ha
        dsimp only at hr
        split at hr
        · cases hr
        · next tail rest hs ht =>
          obtain ⟨ts, hd, hp'⟩ := derives_of_read after ht
          split at hr
          · next hc' =>
            split at hr
            · cases hr
            · next last ha' =>
              cases hr
              refine ⟨_, .dotted .nil (fun h ↦ absurd h hb) hd, ?_⟩
              simp [hp, hp', Lexer.pending_of_advance hc' ha']
          · cases hr
  · next token hc =>
    split at hr
    · cases hr
    · next first rest hs hf =>
      obtain ⟨e, hs', he, rfl⟩ := Reading.extend_eq_done hr
      obtain ⟨ts, ht, hp⟩ := derives_of_read lexer hf
      obtain ⟨us, hu, hp'⟩ := derives_of_readChain false rest he
      exact ⟨_, .cons ht hu, by simp [hp, hp']⟩
termination_by (lexer.size, 1)

end

variable {lexer next : Lexer} {token : Token} {d e : Datum} {ts us : List Token}
  {f : Option LexError} {stream : TokenStream} {atStart : Bool}

theorem read_of_current_eq_none (hc : lexer.current = none) :
    read lexer = .failed .endOfInput lexer := by
  rw [read]
  grind

theorem read_symbol {name : String} (hc : lexer.current = some (.symbol name))
    (ha : lexer.advance = .ok next) :
    read lexer = .done (symbol name) next (Lexer.size_lt_of_advance hc ha) := by
  rw [read]
  grind

theorem read_constant {n : Int64} (hc : lexer.current = some (.constant n))
    (ha : lexer.advance = .ok next) :
    read lexer = .done (integer n) next (Lexer.size_lt_of_advance hc ha) := by
  rw [read]
  grind

theorem read_quote (hc : lexer.current = some (.punctuation .quote))
    (ha : lexer.advance = .ok next) (hn : next.current = some token)
    (ht : token ≠ .punctuation .closeBracket) :
    read lexer = (read next).extend (Lexer.size_lt_of_advance hc ha) quoted := by
  rw [read]
  grind

theorem read_openBracket (hc : lexer.current = some (.punctuation .openBracket))
    (ha : lexer.advance = .ok next) :
    read lexer = (readChain true next).extend (Lexer.size_lt_of_advance hc ha) id := by
  rw [read]
  grind

theorem readChain_closeBracket (hc : lexer.current = some (.punctuation .closeBracket))
    (ha : lexer.advance = .ok next) :
    readChain atStart lexer = .done nil next (Lexer.size_lt_of_advance hc ha) := by
  rw [readChain]
  grind

/-- Reading succeeds and leaves the stream to come. -/
def Reads (lexer : Lexer) (d : Datum) (stream : TokenStream) : Prop :=
  ∃ next shorter, read lexer = .done d next shorter ∧ next.pending = stream

def ReadsChain (atStart : Bool) (lexer : Lexer) (d : Datum) (stream : TokenStream) : Prop :=
  ∃ next shorter, readChain atStart lexer = .done d next shorter ∧ next.pending = stream

theorem reads_quote (hp : lexer.pending = ⟨.punctuation .quote :: token :: ts, f⟩)
    (ht : ¬ token.EndsData)
    (hd : ∀ next : Lexer, next.pending = ⟨token :: ts, f⟩ → Reads next d stream) :
    Reads lexer d.quoted stream := by
  obtain ⟨next, ha, hn⟩ := Lexer.exists_advance_of_pending hp (.inl (List.cons_ne_nil _ _))
  obtain ⟨rest, shorter, hr, hs⟩ := hd next hn
  have hc := Lexer.current_of_pending hp
  have hq := read_quote hc ha (Lexer.current_of_pending hn) fun he ↦ ht (.inl he)
  refine ⟨rest, Nat.lt_trans shorter (Lexer.size_lt_of_advance hc ha), ?_, hs⟩
  rw [hq, hr]
  rfl

theorem reads_openBracket (hp : lexer.pending = ⟨.punctuation .openBracket :: ts, f⟩)
    (hts : ts ≠ [])
    (hd : ∀ next : Lexer, next.pending = ⟨ts, f⟩ → ReadsChain true next d stream) :
    Reads lexer d stream := by
  obtain ⟨next, ha, hn⟩ := Lexer.exists_advance_of_pending hp (.inl hts)
  obtain ⟨rest, shorter, hr, hs⟩ := hd next hn
  have hc := Lexer.current_of_pending hp
  refine ⟨rest, Nat.lt_trans shorter (Lexer.size_lt_of_advance hc ha), ?_, hs⟩
  rw [read_openBracket hc ha, hr]
  rfl

theorem readsChain_closeBracket (hp : lexer.pending = ⟨.punctuation .closeBracket :: us, f⟩)
    (hf : us ≠ [] ∨ f = none) : ReadsChain atStart lexer nil ⟨us, f⟩ := by
  obtain ⟨next, ha, hn⟩ := Lexer.exists_advance_of_pending hp hf
  exact ⟨next, _, readChain_closeBracket (Lexer.current_of_pending hp) ha, hn⟩

theorem readsChain_dot (hp : lexer.pending = ⟨.punctuation .dot :: ts, f⟩) (hts : ts ≠ [])
    (hd : ∀ next : Lexer, next.pending = ⟨ts, f⟩ →
      Reads next d ⟨.punctuation .closeBracket :: us, f⟩)
    (hf : us ≠ [] ∨ f = none) : ReadsChain false lexer d ⟨us, f⟩ := by
  obtain ⟨next, ha, hn⟩ := Lexer.exists_advance_of_pending hp (.inl hts)
  obtain ⟨rest, shorter, hr, hp'⟩ := hd next hn
  obtain ⟨last, ha', hl⟩ := Lexer.exists_advance_of_pending hp' hf
  have hc := Lexer.current_of_pending hp
  have hc' := Lexer.current_of_pending hp'
  have shorter' := Nat.lt_trans shorter (Lexer.size_lt_of_advance hc ha)
  refine ⟨last, Nat.lt_trans (Lexer.size_lt_of_advance hc' ha') shorter', ?_, hl⟩
  rw [readChain]
  grind

theorem readsChain_cons {middle : TokenStream} (hc : lexer.current = some token)
    (ht : ¬ token.EndsData) (hd : Reads lexer d middle)
    (he : ∀ next : Lexer, next.pending = middle → ReadsChain false next e stream) :
    ReadsChain atStart lexer (cons d e) stream := by
  obtain ⟨rest, shorter, hr, hp⟩ := hd
  obtain ⟨last, shorter', hr', hl⟩ := he rest hp
  refine ⟨last, Nat.lt_trans shorter' shorter, ?_, hl⟩
  rw [readChain]
  grind [Token.EndsData, Reading.extend]

mutual

/-- Whatever comes after the tokens of a datum, reading stops in front of it. -/
theorem reads_of_derives {ts us : List Token} {d : Datum} {lexer : Lexer} (h : Derives ts d)
    (hp : lexer.pending = ⟨ts ++ us, f⟩) (hf : us ≠ [] ∨ f = none) : Reads lexer d ⟨us, f⟩ := by
  match h with
  | .symbol name =>
    obtain ⟨next, ha, hn⟩ := Lexer.exists_advance_of_pending hp hf
    exact ⟨next, _, read_symbol (Lexer.current_of_pending hp) ha, hn⟩
  | .constant n =>
    obtain ⟨next, ha, hn⟩ := Lexer.exists_advance_of_pending hp hf
    exact ⟨next, _, read_constant (Lexer.current_of_pending hp) ha, hn⟩
  | .quoted h =>
    have hd : ∀ next : Lexer, next.pending = ⟨_, f⟩ → Reads next _ ⟨us, f⟩ :=
      fun next hn ↦ reads_of_derives h hn hf
    obtain ⟨token, vs, rfl, ht⟩ := h.exists_cons
    exact reads_quote hp ht hd
  | .list h =>
    rw [List.cons_append, List.append_assoc] at hp
    apply reads_openBracket hp (by simp)
    intro next hn
    apply readsChain_of_derivesAll true h hn (List.cons_ne_nil _ _)
    intro rest hr
    exact readsChain_closeBracket hr hf
  | .dotted h hne ht =>
    simp only [List.cons_append, List.append_assoc, List.nil_append] at hp
    apply reads_openBracket hp (by simp)
    intro next hn
    apply readsChain_of_derivesAll true h hn (List.cons_ne_nil _ _)
    intro rest hr
    rw [List.isEmpty_eq_false_iff.2 hne]
    refine readsChain_dot hr (by simp) (fun last hl ↦ ?_) hf
    exact reads_of_derives ht hl (.inl (List.cons_ne_nil _ _))

theorem readsChain_of_derivesAll (atStart : Bool) {ts us : List Token} {ds : List Datum}
    {d : Datum} {lexer : Lexer} {stream : TokenStream} (h : DerivesAll ts ds)
    (hp : lexer.pending = ⟨ts ++ us, f⟩) (hne : us ≠ [])
    (hd : ∀ next : Lexer, next.pending = ⟨us, f⟩ →
      ReadsChain (atStart && ds.isEmpty) next d stream) :
    ReadsChain atStart lexer (ofList ds d) stream := by
  match h with
  | .nil =>
    rw [List.isEmpty_nil, Bool.and_true] at hd
    exact hd lexer hp
  | .cons h hs =>
    rw [List.append_assoc] at hp
    have hr := reads_of_derives h hp (.inl (by simp [hne]))
    obtain ⟨token, vs, rfl, ht⟩ := h.exists_cons
    apply readsChain_cons (Lexer.current_of_pending hp) ht hr
    intro next hn
    apply readsChain_of_derivesAll false hs hn hne
    intro rest hl
    rw [List.isEmpty_cons, Bool.and_false] at hd
    exact hd rest hl

end

theorem ofText_eq_ok_iff {text : String} :
    ofText text = .ok d ↔ ∃ ts, tokenize text = .ok ts ∧ Derives ts d := by
  constructor
  · intro h
    rw [ofText] at h
    split at h
    · cases h
    · next lexer hl =>
      split at h
      · cases h
      · next rest shorter hr =>
        split at h
        · next hc =>
          cases h
          obtain ⟨ts, ht, hp⟩ := derives_of_read lexer hr
          refine ⟨ts, TokenStream.tokenize_eq_ok_iff.2 ?_, ht⟩
          rw [TokenStream.ofText_eq_pending hl, hp, Lexer.pending_of_current_eq_none hc]
          simp
        · cases h
  · intro h
    obtain ⟨ts, ht, hd⟩ := h
    obtain ⟨lexer, hl, hp⟩ :=
      TokenStream.exists_lexer_of_ofText (TokenStream.tokenize_eq_ok_iff.1 ht)
    rw [← List.append_nil ts] at hp
    obtain ⟨rest, shorter, hr, hn⟩ := reads_of_derives hd hp (.inr rfl)
    rw [ofText, hl]
    simp only [hr, Lexer.current_of_pending_nil hn]

end Datum

namespace Store

variable {s : Store} {ts : List Token} {v w : Value}

/-- The tokens derive the tree of an object. -/
def DerivedFrom (s : Store) (v : Value) (ts : List Token) : Prop :=
  ∃ d, Derives ts d ∧ s.Unfolds v d

theorem DerivedFrom.equal (hs : s.Closed) (hv : s.DerivedFrom v ts) (hw : s.DerivedFrom w ts) :
    s.equal v w = true := by
  obtain ⟨d, hd, hv⟩ := hv
  obtain ⟨e, he, hw⟩ := hw
  rw [hd.functional he] at hv
  exact (equal_iff_unfolds hs hv hw.holds).2 hw

end Store

/-- A text is read as what its tokens derive, and rejected if they derive nothing. -/
theorem ofText_iff_derives (text : String) {s : Store} (hs : s.Closed) :
    (∀ d, Datum.ofText text = .ok d ↔ ∃ ts, tokenize text = .ok ts ∧ Derives ts d) ∧
    (∀ ts d d', Derives ts d → Derives ts d' → d = d') ∧
    (∀ v, s.Holds v →
      ((∃ d, Datum.ofText text = .ok d ∧ (s.load d).2.equal (s.load d).1 v = true) ↔
        ∃ ts, tokenize text = .ok ts ∧ s.DerivedFrom v ts)) ∧
    (∀ ts v w, s.DerivedFrom v ts → s.DerivedFrom w ts → s.equal v w = true) ∧
    ((¬ ∃ ts d, tokenize text = .ok ts ∧ Derives ts d) →
      ∃ e, Datum.ofText text = .error e ∧ (Error.reading e).kind.describe = "SyntaxError") := by
  refine ⟨fun d ↦ Datum.ofText_eq_ok_iff, fun ts d d' hd hd' ↦ hd.functional hd', fun v hv ↦ ?_,
    fun ts v w hv hw ↦ hv.equal hs hw, fun hn ↦ ?_⟩
  · constructor
    · intro h
      obtain ⟨d, hd, he⟩ := h
      obtain ⟨ts, ht, hd⟩ := Datum.ofText_eq_ok_iff.1 hd
      exact ⟨ts, ht, d, hd, (Store.equal_load_iff hs hv).1 he⟩
    · intro h
      obtain ⟨ts, ht, d, hd, hv'⟩ := h
      exact ⟨d, Datum.ofText_eq_ok_iff.2 ⟨ts, ht, hd⟩, (Store.equal_load_iff hs hv).2 hv'⟩
  · cases h : Datum.ofText text with
    | error e => exact ⟨e, rfl, rfl⟩
    | ok d =>
      obtain ⟨ts, ht, hd⟩ := Datum.ofText_eq_ok_iff.1 h
      exact absurd ⟨ts, d, ht, hd⟩ hn

/-- The chain of a dotted pair whose tail is a list is the list. -/
theorem ofText_iff_derives_dotted :
    (Store.empty.load (.ofList [.symbol "a", .integer 1] .nil)).2.Closed ∧
      ∃ ts, tokenize "(a . (+1))" = .ok ts ∧
        (Store.empty.load (.ofList [.symbol "a", .integer 1] .nil)).2.DerivedFrom (.pair 1) ts := by
  have hc : Store.empty.Closed := fun p hp ↦ absurd hp (Nat.not_lt_zero p)
  have hs := hc.load (.ofList [.symbol "a", .integer 1] .nil)
  refine ⟨hs, ((ofText_iff_derives "(a . (+1))" hs).2.2.1 (.pair 1) ?_).1 ?_⟩
  · intro p hp
    cases hp
    decide
  · refine ⟨.ofList [.symbol "a", .integer 1] .nil, ?_, ?_⟩
    · cbv
    · cbv

end MiniScheme
