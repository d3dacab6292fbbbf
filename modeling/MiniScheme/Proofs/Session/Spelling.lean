import MiniScheme.Proofs.Datum.Pending
import MiniScheme.Proofs.Session.Keep
import MiniScheme.Proofs.Store.Spelling
import MiniScheme.Proofs.Text.Unbroken

namespace MiniScheme

open Lexeme Text

namespace Store

variable {s : Store} {v : Value} {a : Atom}

theorem unbroken_atomText (hs : s.Spelled) (ha : Value.Spelled (.atom a)) :
    Unbroken (s.atomText a) := by
  cases a with
  | nil => exact (by decide : Unbroken "()")
  | integer n => exact unbroken_int n
  | symbol name => exact unbroken_of_isSymbol (ha name rfl)
  | builtin b =>
    have hopen : Unbroken "#<primitive " := by decide
    have hb := unbroken_of_isSymbol (isSymbol_builtin b)
    exact (hopen.append hb).append (by decide)
  | closure c =>
    have hopen : Unbroken "#<lambda (" := by decide
    have hp : Unbroken (" ".intercalate (s.closure c).parameters) :=
      unbroken_intercalate (by decide) fun name hn ↦
        unbroken_of_isSymbol ((hs.closure c).parameters name hn)
    exact (hopen.append hp).append (by decide)

theorem unbroken_spineText (hs : s.Spelled) (path : List Address) (p : Address) :
    Unbroken (s.spineText path p) := by
  have hopen : Unbroken "(" := by decide
  have hdot : Unbroken " . " := by decide
  have hspace : Unbroken " " := by decide
  fun_induction spineText s path p with
  | case1 => exact (by decide : Unbroken "...)")
  | case2 path p hp ihf ihs =>
    apply Unbroken.append
    · split
      · next ha => exact unbroken_atomText hs (ha ▸ hs.first p)
      · next q hq => exact hopen.append (ihf q hq)
    · split
      · decide
      · next ha => exact (hdot.append (unbroken_atomText hs (ha ▸ hs.second p))).append (by decide)
      · next q hq => exact hspace.append (ihs q hq)

theorem unbroken_text (hs : s.Spelled) (hv : v.Spelled) : Unbroken (s.text v) := by
  cases v with
  | atom a => exact unbroken_atomText hs hv
  | pair p =>
    have hopen : Unbroken "(" := by decide
    exact hopen.append (unbroken_spineText hs [] p)

theorem text_ne_empty (hv : v.Spelled) : s.text v ≠ "" := by
  intro h
  have hnil : (s.text v).toList = [] := by rw [h]; rfl
  rcases v with (_ | n | name | b | c) | p
  case atom.integer => exact (denotes_integer n).ne_nil hnil
  case atom.symbol =>
    obtain ⟨longer, hd⟩ := isSymbol_iff_denotes.1 (hv name rfl)
    exact hd.ne_nil hnil
  all_goals simp [text, atomText, Atom.text] at hnil

end Store

namespace Error

theorem unbroken_describe (expected : Arity) : Unbroken expected.describe := by
  have hfrom : Unbroken "from " := by decide
  have hto : Unbroken " to " := by decide
  have hexactly : Unbroken "exactly " := by decide
  have hleast : Unbroken "at least " := by decide
  cases expected with
  | between low high =>
    rw [Arity.describe]
    split
    · exact hexactly.append (unbroken_nat low)
    · exact ((hfrom.append (unbroken_nat low)).append hto).append (unbroken_nat high)
  | atLeast low => exact hleast.append (unbroken_nat low)

theorem unbroken_mismatch {mismatch : ArityMismatch}
    (h : mismatch.name ∈ Builtin.all.map Builtin.name) : Unbroken mismatch.message := by
  obtain ⟨b, -, hb⟩ := List.mem_map.1 h
  have hwhen : Unbroken "When evaluating " := by decide
  have hn : Unbroken mismatch.name := unbroken_of_isSymbol (hb ▸ isSymbol_builtin b)
  have hexpected : Unbroken " expected " := by decide
  have he := unbroken_describe mismatch.expected
  have hbut : Unbroken " arguments, but received " := by decide
  have hr := unbroken_nat mismatch.received
  exact (((((hwhen.append hn).append hexpected).append he).append hbut).append hr).append
    (by decide)

theorem Plain.unbroken {e : Error} (h : e.Plain) : Unbroken e.message := by
  cases e with
  | reading | notCallable | procedureNotEvaluable | unboundName => cases h
  | formArity mismatch | callArity mismatch => exact unbroken_mismatch h
  | badIndex index =>
    have hbad : Unbroken "bad index: " := by decide
    exact hbad.append (unbroken_int index)
  | _ => decide

end Error

theorem Token.unbroken_describe {token : Token} {lexeme : List Char} {longer : Char → Bool}
    (h : Denotes lexeme longer token) : Unbroken token.describe := by
  have hsymbol : Unbroken "symbol " := by decide
  have hconstant : Unbroken "constant " := by decide
  cases token with
  | punctuation p => cases p <;> decide
  | symbol name => exact hsymbol.append (unbroken_of_isSymbol h.isSymbol)
  | constant n => exact hconstant.append (unbroken_int n)

theorem Datum.unbroken_message_of_ofText {text : String} {e : ReadError}
    (h : Datum.ofText text = .error e) : Unbroken e.message := by
  cases e with
  | lexical e =>
    cases e with
    | unexpectedCharacter c =>
      have hfailed : Unbroken "tokenizer failed: " := by decide
      have hunexpected : Unbroken "unexpected character " := by decide
      exact hfailed.append (hunexpected.append (unbroken_quoteChar c))
  | trailingInput token =>
    obtain ⟨lexeme, longer, hd⟩ := Datum.exists_denotes_of_trailingInput h
    have hfrom : Unbroken "read error: unconsumed input from " := by decide
    exact hfrom.append (Token.unbroken_describe hd)
  | _ => decide

/-- Symbols come from the lexer, wherever they are. -/
def Discipline.spelling : Discipline where
  Holds s := s.Spelled
  Visible _ _ := True
  Known _ v := v.Spelled
  Ready _ c := c.Spelled
  Allowed e := Unbroken e.message
  visible_mono _ _ := trivial
  known_mono _ hv := hv
  ready_mono _ hc := hc
  known_nil _ := Store.spelled_of_not_symbol rfl
  known_integer _ _ := Store.spelled_of_not_symbol rfl
  known_boolean _ b name h := by
    cases h
    exact isSymbol_boolean b
  known_first hd _ := hd.first _
  known_second hd _ := hd.second _
  known_ready hd _ := hd.closure _
  ready_body _ hc hv := hc.body _ hv
  known_lookup hd _ hl := hd.lookup hl
  cons hd hv hw := ⟨hd.cons hv hw, Store.spelled_of_not_symbol rfl⟩
  setFirst hd _ hv := hd.setFirst hv _
  setSecond hd _ hv := hd.setSecond hv _
  newClosure hd hp hb _ :=
    ⟨hd.newClosure ⟨fun name hn ↦ hp name hn name rfl, hb⟩, Store.spelled_of_not_symbol rfl⟩
  openScope hd hc hvs :=
    ⟨hd.openScope _ fun b hb ↦
      ⟨hc.parameters b.1 (List.of_mem_zip hb).1, hvs b.2 (List.of_mem_zip hb).2⟩, trivial⟩
  define hd _ hn hv := hd.bindHere (hn _ rfl) hv _
  assign hd _ hv ha := hd.assign hv ha
  unbound _ _ hn _ :=
    ((by decide : Unbroken "\x27").append (unbroken_of_isSymbol (hn _ rfl))).append (by decide)
  shown hd hv :=
    have ht := Store.unbroken_text hd hv
    ⟨ht.append (by decide), ht.append (by decide)⟩
  unread h := Datum.unbroken_message_of_ofText h
  plain h := h.unbroken

namespace Session

variable {session next : Session} {depth : Nat} {verbosity : Verbosity}

theorem spelled_new : new.store.Spelled := by
  apply Store.spelled_empty.newScope
  intro b hb
  obtain ⟨c, -, rfl⟩ := List.mem_map.1 hb
  exact ⟨isSymbol_builtin c, Store.spelled_of_not_symbol rfl⟩

theorem knownAtoms_spelling (s : Store) (text : String) (d : Datum)
    (h : Datum.ofText text = .ok d) : Discipline.spelling.KnownAtoms s d :=
  Discipline.knownAtoms_of_lexemes h fun name hn other he ↦ by
    cases he
    exact hn

theorem keeps_new_spelling : new.Keeps .spelling := ⟨spelled_new, trivial⟩

end Session

end MiniScheme
