import MiniScheme.Proofs.Session.Spelling
import MiniScheme.Proofs.Session.Whole
import MiniScheme.Proofs.Store.Equality

namespace MiniScheme

namespace Store

variable {s : Store} {v : Value} {d : Datum}

theorem Unfolds.of_pair {p : Address} {w : Value} {e : Datum} (hp : p < s.pairs.size)
    (h : s.pair p = ⟨v, w⟩) (hv : s.Unfolds v d) (hw : s.Unfolds w e) :
    s.Unfolds (.pair p) (.cons d e) := by
  refine .pair hp ?_ ?_
  · rwa [first, h]
  · rwa [second, h]

theorem Spelled.part {w : Value} (hs : s.Spelled) (hv : v.Spelled) (h : s.Part v w) :
    w.Spelled := by
  cases h with
  | self => exact hv
  | first => exact hs.first _
  | second => exact hs.second _

/-- Data whose symbols are lexemes can be read back. -/
theorem IsData.readable (h : s.IsData v) (hs : s.Spelled) (hv : v.Spelled) (hc : s.Closed)
    (hh : s.Holds v) : s.Readable v := by
  obtain ⟨d, hd⟩ := h.acyclic.exists_unfolds hc hh
  refine ⟨d, hd, hd.readable_iff.2 fun a ha ↦ ?_⟩
  cases a with
  | nil => exact .nil
  | integer n => exact .integer n
  | symbol name =>
    obtain ⟨longer, hl⟩ := Lexeme.isSymbol_iff_denotes.1 (hs.part hv ha name rfl)
    exact .symbol hl
  | builtin b => exact absurd ha (h.builtin_not_part b)
  | closure c => exact absurd ha (h.closure_not_part c)

theorem Readable.isData (h : s.Readable v) : s.IsData v where
  acyclic :=
    have ⟨_, hd, _⟩ := h
    hd.acyclic
  builtin_not_part b hb := by
    obtain ⟨d, hd, hr⟩ := h.part hb
    cases hd
    cases hr
  closure_not_part c hc := by
    obtain ⟨d, hd, hr⟩ := h.part hc
    cases hd
    cases hr

end Store

namespace Session

variable {session next : Session} {depth : Nat} {verbosity : Verbosity} {line text : String}
  {reply : Reply}

/-- An answer is the written form of the value that the line evaluates to. -/
theorem exists_evalText_of_run (h : session.run depth verbosity line = .ok (reply, next))
    (ha : reply.answer = .ok text) :
    ∃ v, Eval.evalText depth line session.global verbosity session.store =
      .ok ⟨.ok v, next.store, reply.log⟩ ∧ text = next.store.text v := by
  obtain ⟨run, hrun, rfl, rfl⟩ := exists_of_run h
  obtain ⟨e, s, log, -, rfl⟩ | ⟨v, s, log, later, he, hl, rfl⟩ := EvalM.bind_eq_ok_iff.1 hrun
  · cases ha
  · cases hl
    cases ha
    exact ⟨v, by simpa using he, rfl⟩

/-- Symbols are lexemes in all sessions, so an answer that shows data reads back as equal data. -/
theorem read_back_of_runAll {lines : List String} {replies : List Reply}
    (h : Session.new.runAll depth verbosity lines = .ok (replies, session)) :
    session.store.Spelled ∧
    ∀ depth line reply next text, session.run depth verbosity line = .ok (reply, next) →
      reply.answer = .ok text →
      ∃ v, Eval.evalText depth line session.global verbosity session.store =
          .ok ⟨.ok v, next.store, reply.log⟩ ∧
        text = next.store.text v ∧
        (next.store.IsData v → ∃ d, Datum.ofText text = .ok d ∧ next.store.Unfolds v d ∧
          (next.store.load d).2.equal (next.store.load d).1 v = true) := by
  obtain ⟨-, hspelling, -⟩ := keeps_new_spelling.runAll knownAtoms_spelling h
  obtain ⟨-, howning, -⟩ := keeps_new_owning.runAll knownAtoms_owning h
  refine ⟨hspelling.holds, fun depth line reply next text hr ha ↦ ?_⟩
  obtain ⟨v, he, rfl⟩ := exists_evalText_of_run hr ha
  refine ⟨v, he, rfl, fun hdata ↦ ?_⟩
  obtain ⟨hs, hv⟩ :=
    hspelling.known_of_evalText (fun s d ↦ knownAtoms_spelling s line d) he
  obtain ⟨hw, ho⟩ := howning.known_of_evalText (fun s d ↦ knownAtoms_owning s line d) he
  exact (hdata.readable hs hv hw.closed ho.holds).exists_ofText

def sharingLines : List String :=
  ["(define x (cons 'a (< 1 2)))", "(set-cdr! 5 x)", "(set-car! x 'b)"]

/-- A changed pair that no text has contained is printed twice. One line has failed before. -/
theorem read_back_of_runAll_sharing :
    ∃ replies session reply next v d,
      Session.new.runAll 9 .silent sharingLines = .ok (replies, session) ∧
      session.run 9 .silent "(list x x)" = .ok (reply, next) ∧
      reply.answer = .ok "((b . #t) (b . #t))" ∧ next.store.IsData v ∧
      Datum.ofText "((b . #t) (b . #t))" = .ok d ∧
      (next.store.load d).2.equal (next.store.load d).1 v = true := by
  have hrun : (do
      let first ← Session.new.runAll 9 .silent sharingLines
      let last ← first.2.run 9 .silent "(list x x)"
      let run ← Eval.evalText 9 "(list x x)" first.2.global .silent first.2.store
      return (last.1.answer, run.result, last.2.store.pairs.size,
        [11, 23, 24].map last.2.store.pair)) =
      .ok (.ok "((b . #t) (b . #t))", .ok (.pair 24), 25,
        [⟨.symbol "b", .boolean true⟩, ⟨.pair 11, .nil⟩, ⟨.pair 11, .pair 23⟩]) := by
    cbv
  obtain ⟨⟨replies, session⟩, hall, hrun⟩ := exists_of_bind_eq_ok hrun
  obtain ⟨⟨reply, next⟩, hlast, hrun⟩ := exists_of_bind_eq_ok hrun
  obtain ⟨run, he, hf⟩ := exists_of_bind_eq_ok hrun
  replace hf := Except.ok.inj hf
  simp only [List.map_cons, List.map_nil, Prod.mk.injEq, List.cons.injEq] at hf
  obtain ⟨ha, hv, hsize, h₁₁, h₂₃, h₂₄, -⟩ := hf
  obtain ⟨v, he', -, hback⟩ := (read_back_of_runAll hall).2 9 _ _ _ _ hlast ha
  rw [he'] at he
  cases he
  cases hv
  have hlt {p : Address} (hp : p < 25) : p < next.store.pairs.size := hsize ▸ hp
  have hx := Store.Unfolds.of_pair (hlt (by decide)) h₁₁ (.atom _) (.atom _)
  have hlist := Store.Unfolds.of_pair (hlt (by decide)) h₂₃ hx (.atom _)
  have hpair := Store.Unfolds.of_pair (hlt (by decide)) h₂₄ hx hlist
  obtain ⟨_, hb⟩ := Lexeme.isSymbol_iff_denotes.1 (by decide : Lexeme.IsSymbol "b")
  have hbool : (Datum.cons (.symbol "b") (.symbol "#t")).Readable := by
    obtain ⟨_, ht⟩ := Lexeme.isSymbol_iff_denotes.1 (Lexeme.isSymbol_boolean true)
    exact .cons (.symbol hb) (.symbol ht)
  have hdata := Store.Readable.isData ⟨_, hpair, .cons hbool (.cons hbool .nil)⟩
  obtain ⟨d, hd, -, heq⟩ := hback hdata
  exact ⟨replies, session, reply, next, .pair 24, d, hall, hlast, ha, hdata, hd, heq⟩

end Session

end MiniScheme
