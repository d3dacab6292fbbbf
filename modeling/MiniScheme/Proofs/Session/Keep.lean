import MiniScheme.Proofs.Datum.Reader
import MiniScheme.Proofs.Eval.Keep
import MiniScheme.Proofs.Token.Symbol
import MiniScheme.Session.Basic

namespace MiniScheme

namespace Discipline

variable {D : Discipline} {s : Store}

theorem knownAtoms_ofList {ds : List Datum} {d : Datum} (hds : ∀ e ∈ ds, D.KnownAtoms s e)
    (hd : D.KnownAtoms s d) : D.KnownAtoms s (.ofList ds d) := by
  induction ds with
  | nil => exact hd
  | cons e ds ih =>
    obtain ⟨he, hds⟩ := List.forall_mem_cons.1 hds
    exact ⟨he, ih hds⟩

mutual

/-- What is written down has no atoms but its symbols, numbers, the empty list and the symbol that
a quotation mark stands for. -/
theorem knownAtoms_of_derives {ts : List Token} {d : Datum} (h : Derives ts d)
    (hn : ∀ name, .symbol name ∈ ts → D.Known s (.symbol name))
    (hq : D.Known s (.symbol "quote")) : D.KnownAtoms s d := by
  match h with
  | .symbol name => exact hn name List.mem_cons_self
  | .constant n => exact D.known_integer s n
  | .quoted h =>
    have hd := knownAtoms_of_derives h (fun name hm ↦ hn name (List.mem_cons_of_mem _ hm)) hq
    exact ⟨hq, hd, D.known_nil s⟩
  | .list h =>
    have hds := knownAtoms_of_derivesAll h (fun name hm ↦ hn name (by simp [hm])) hq
    exact knownAtoms_ofList hds (D.known_nil s)
  | .dotted h _ ht =>
    have hds := knownAtoms_of_derivesAll h (fun name hm ↦ hn name (by simp [hm])) hq
    have hd := knownAtoms_of_derives ht (fun name hm ↦ hn name (by simp [hm])) hq
    exact knownAtoms_ofList hds hd

theorem knownAtoms_of_derivesAll {ts : List Token} {ds : List Datum} (h : DerivesAll ts ds)
    (hn : ∀ name, .symbol name ∈ ts → D.Known s (.symbol name))
    (hq : D.Known s (.symbol "quote")) : ∀ d ∈ ds, D.KnownAtoms s d := by
  match h with
  | .nil => exact fun _ hd ↦ by cases hd
  | .cons h hs =>
    have hd := knownAtoms_of_derives h (fun name hm ↦ hn name (List.mem_append_left _ hm)) hq
    have hds := knownAtoms_of_derivesAll hs (fun name hm ↦ hn name (List.mem_append_right _ hm)) hq
    exact List.forall_mem_cons.2 ⟨hd, hds⟩

end

/-- What is read has no symbols but lexemes. -/
theorem knownAtoms_of_lexemes {text : String} {d : Datum} (h : Datum.ofText text = .ok d)
    (hn : ∀ name, Lexeme.IsSymbol name → D.Known s (.symbol name)) : D.KnownAtoms s d := by
  obtain ⟨ts, ht, hd⟩ := Datum.ofText_eq_ok_iff.1 h
  refine knownAtoms_of_derives hd (fun name hm ↦ hn name ?_) (hn _ Lexeme.isSymbol_quote)
  rw [TokenStream.tokenize_eq_ok_iff] at ht
  have hall : .symbol name ∈ (TokenStream.ofText text.toList).tokens := by rwa [ht]
  exact TokenStream.isSymbol_of_mem hall

theorem knownAtoms_of_ofText {text : String} {d : Datum} (h : Datum.ofText text = .ok d)
    (hn : ∀ name, D.Known s (.symbol name)) : D.KnownAtoms s d :=
  knownAtoms_of_lexemes h fun name _ ↦ hn name

end Discipline

namespace Session

variable {session next : Session} {depth : Nat} {verbosity : Verbosity} {D : Discipline}

/-- The discipline holds in the session, and the scope of its lines is visible. -/
structure Keeps (session : Session) (D : Discipline) : Prop where
  holds : D.Holds session.store
  visible : D.Visible session.store session.global

/-- An answer is the written form of a known value, or an error that is allowed. -/
structure Answers (session : Session) (D : Discipline) (reply : Reply) : Prop where
  text (answer : String) :
    reply.answer = .ok answer → ∃ v, D.Known session.store v ∧ answer = session.store.text v
  error (e : Error) : reply.answer = .error e → D.Allowed e

theorem exists_of_run {line : String} {reply : Reply}
    (h : session.run depth verbosity line = .ok (reply, next)) :
    ∃ run, Eval.answerText depth line session.global verbosity session.store = .ok run ∧
      reply = ⟨run.result, run.log⟩ ∧ next = { session with store := run.store } := by
  rw [run] at h
  obtain ⟨run, hrun, h⟩ := exists_of_bind_eq_ok h
  cases h
  exact ⟨run, hrun, rfl, rfl⟩

theorem Keeps.run {line : String} {reply : Reply} (h : session.Keeps D)
    (ha : ∀ s d, Datum.ofText line = .ok d → D.KnownAtoms s d)
    (hr : session.run depth verbosity line = .ok (reply, next)) :
    next.global = session.global ∧ next.Keeps D ∧ next.Answers D reply := by
  have hk : D.Runs session.store (Eval.answerText depth line session.global) _ :=
    Discipline.runs_answerText h.holds (ha session.store) h.visible
  obtain ⟨run, hrun, rfl, rfl⟩ := exists_of_run hr
  have he := (hk verbosity).2 run hrun
  exact ⟨rfl, ⟨he.holds, D.visible_mono he.precedes h.visible⟩, ⟨he.result, he.error⟩⟩

/-- Lines evaluate to known values. -/
theorem Keeps.known_of_evalText {line : String} {v : Value} {s : Store} {log : List Event}
    (h : session.Keeps D) (ha : ∀ s d, Datum.ofText line = .ok d → D.KnownAtoms s d)
    (he : Eval.evalText depth line session.global verbosity session.store = .ok ⟨.ok v, s, log⟩) :
    D.Holds s ∧ D.Known s v := by
  have hends := (Discipline.runs_evalText h.holds (ha session.store) h.visible verbosity).2 _ he
  exact ⟨hends.holds, hends.result v rfl⟩

theorem exists_of_runAll_cons {line : String} {lines : List String} {replies : List Reply}
    (h : session.runAll depth verbosity (line :: lines) = .ok (replies, next)) :
    ∃ reply middle rest, session.run depth verbosity line = .ok (reply, middle) ∧
      middle.runAll depth verbosity lines = .ok (rest, next) ∧ replies = reply :: rest := by
  rw [runAll] at h
  obtain ⟨⟨reply, middle⟩, hr, h⟩ := exists_of_bind_eq_ok h
  obtain ⟨⟨rest, last⟩, hs, h⟩ := exists_of_bind_eq_ok h
  cases h
  exact ⟨reply, middle, rest, hr, hs, rfl⟩

/-- Lines keep a discipline that knows the atoms of every text. -/
theorem Keeps.runAll {lines : List String} {replies : List Reply} (h : session.Keeps D)
    (ha : ∀ s text d, Datum.ofText text = .ok d → D.KnownAtoms s d)
    (hr : session.runAll depth verbosity lines = .ok (replies, next)) :
    next.global = session.global ∧ next.Keeps D ∧
      ∀ reply ∈ replies, ∃ middle : Session, middle.Keeps D ∧ middle.Answers D reply := by
  induction lines generalizing session replies with
  | nil =>
    cases hr
    exact ⟨rfl, h, by simp⟩
  | cons line lines ih =>
    obtain ⟨reply, middle, rest, hfirst, hrest, rfl⟩ := exists_of_runAll_cons hr
    obtain ⟨hg, hm, hanswer⟩ := h.run (fun s d ↦ ha s line d) hfirst
    obtain ⟨hg', hk, hall⟩ := ih hm hrest
    exact ⟨hg'.trans hg, hk, List.forall_mem_cons.2 ⟨⟨middle, hm, hanswer⟩, hall⟩⟩

end Session

end MiniScheme
