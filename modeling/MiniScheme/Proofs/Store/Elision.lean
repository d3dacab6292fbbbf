import MiniScheme.Proofs.Store.ProperList
import MiniScheme.Proofs.Store.Writer
import MiniScheme.Proofs.Text.Stops
import Mathlib

namespace MiniScheme.Store

open Text

/-- The symbols and the parameter names that are shown with a value have no full stop in them. -/
structure Stopless (s : Store) (v : Value) : Prop where
  symbol (name : String) : s.Part v (.symbol name) → Text.Stopless name
  parameter (c : Address) (name : String) :
    s.Part v (.closure c) → name ∈ (s.closure c).parameters → Text.Stopless name

variable {s : Store} {v : Value} {d : Datum} {p : Address} {path : List Address}

/-- Some pair in the value is found again in one of its own slots. -/
def Circular (s : Store) (v : Value) : Prop :=
  ∃ p, s.Part v (.pair p) ∧ (s.Part (s.first p) (.pair p) ∨ s.Part (s.second p) (.pair p))

theorem not_acyclic_iff : ¬ s.Acyclic v ↔ s.Circular v := by
  simp only [Acyclic, Circular, not_forall, not_and_or, not_not, exists_prop]

section Elided

/-- Where nothing is left out, every way down has come to an end. -/
theorem exists_unfolds_of_not_elides (hc : s.Closed) (hp : s.Holds (.pair p))
    (h : ¬ Elides (s.spineText path p)) : ∃ d, s.Unfolds (.pair p) d := by
  induction path, p using spineText.induct s with
  | case1 path p hmem =>
    rw [spineText_of_mem hmem] at h
    exact absurd (List.prefix_append _ _).isInfix h
  | case2 path p hmem ihf ihs =>
    rw [spineText_of_notMem hmem] at h
    have hlt := hp p rfl
    obtain ⟨hfirst, hsecond⟩ := hc p hlt
    have hf : ∃ d, s.Unfolds (s.first p) d := by
      have hhead := mt (Elides.append_left · (s.tailText (p :: path) (s.second p))) h
      cases hv : s.first p with
      | atom a => exact ⟨_, .atom a⟩
      | pair q =>
        rw [hv] at hfirst hhead
        exact ihf q hv hfirst (mt (Elides.append_right · "(") hhead)
    have hs : ∃ d, s.Unfolds (s.second p) d := by
      have htail := mt (Elides.append_right · (s.headText (p :: path) (s.first p))) h
      cases hv : s.second p with
      | atom a => exact ⟨_, .atom a⟩
      | pair q =>
        rw [hv] at hsecond htail
        exact ihs q hv hsecond (mt (Elides.append_right · " ") htail)
    obtain ⟨d, hd⟩ := hf
    obtain ⟨e, he⟩ := hs
    exact ⟨.cons d e, .pair hlt hd he⟩

theorem exists_unfolds_of_not_elides_text (hc : s.Closed) (hv : s.Holds v)
    (h : ¬ Elides (s.text v)) : ∃ d, s.Unfolds v d := by
  cases v with
  | atom a => exact ⟨_, .atom a⟩
  | pair p => exact exists_unfolds_of_not_elides hc hv (mt (Elides.append_right · "(") h)

end Elided

section Whole

theorem Stopless.part (h : s.Stopless v) {w : Value} (hw : s.Part v w) : s.Stopless w where
  symbol name hn := h.symbol name (hw.trans hn)
  parameter c name hc := h.parameter c name (hw.trans hc)

theorem Stopless.atomText {a : Atom} (h : s.Stopless (.atom a)) :
    Text.Stopless (s.atomText a) := by
  cases a with
  | nil => exact (by decide : Text.Stopless "()")
  | integer n => exact stopless_int n.toInt
  | symbol name => exact h.symbol name .self
  | builtin b =>
    have hname : ∀ b ∈ Builtin.all, Text.Stopless b.name := by decide
    have hopen : Text.Stopless "#<primitive " := by decide
    exact (hopen.append (hname b b.mem_all)).append (by decide)
  | closure c =>
    have hopen : Text.Stopless "#<lambda (" := by decide
    have hnames : Text.Stopless (" ".intercalate (s.closure c).parameters) := by
      intro hc
      obtain hc | ⟨name, hn, hc⟩ := mem_intercalate hc
      · exact absurd hc (by decide)
      · exact h.parameter c name .self hn hc
    exact (hopen.append hnames).append (by decide)

/-- The full stops in a written tree are those between blanks. -/
theorem Unfolds.stopSpaced (h : s.Unfolds v d) (hn : s.Stopless v) :
    StopSpaced (d.text fun c ↦ (s.closure c).parameters) ∧
      StopSpaced (d.tailText fun c ↦ (s.closure c).parameters) := by
  have hclose : StopSpaced ")" := Text.Stopless.stopSpaced (by decide)
  induction h with
  | atom a =>
    have ha := hn.atomText.stopSpaced
    refine ⟨by rwa [Datum.text], ?_⟩
    cases a with
    | nil => rwa [Datum.tailText]
    | _ =>
      rw [Datum.tailText]
      · exact (stopSpaced_dot.append ha).append hclose
      · simp
  | @pair p d e _ _ _ ihf ihs =>
    have hopen : StopSpaced "(" := Text.Stopless.stopSpaced (by decide)
    have hblank : StopSpaced " " := Text.Stopless.stopSpaced (by decide)
    obtain ⟨hf, -⟩ := ihf (hn.part (.first .self))
    obtain ⟨-, hs⟩ := ihs (hn.part (.second .self))
    rw [Datum.text, Datum.tailText]
    exact ⟨(hopen.append hf).append hs, (hblank.append hf).append hs⟩

theorem Unfolds.not_elides (h : s.Unfolds v d) (hn : s.Stopless v) : ¬ Elides (s.text v) := by
  rw [h.text_eq]
  exact (h.stopSpaced hn).1.not_elides

theorem closures_load (s : Store) (d : Datum) : (s.load d).2.closures = s.closures := by
  induction d generalizing s with
  | atom a => rfl
  | cons d e ihd ihe => rw [load_cons, Store.cons, ihe, ihd]

/-- A copy in which nothing is shared is written like the value. -/
theorem Unfolds.text_load (h : s.Unfolds v d) : (s.load d).2.text (s.load d).1 = s.text v := by
  have hclosure (c : Address) : (s.load d).2.closure c = s.closure c := by
    rw [closure, closures_load, closure]
  rw [(unfolds_load s d).text_eq, h.text_eq]
  simp only [hclosure]

/-- The printer comes to an end on every value, leaves out cycles and nothing but cycles, and writes
what is shared like separate copies. -/
theorem write_elides_cycles (hc : s.Closed) (hv : s.Holds v) (hn : s.Stopless v) :
    (∀ k, 2 * s.pairs.size + 1 < k → s.writeWithin k v ⟨"", ∅⟩ = some ⟨s.text v, ∅⟩) ∧
      (Elides (s.text v) ↔ s.Circular v) ∧
      (¬ s.Circular v → ∃ d, s.Unfolds v d ∧
        s.text v = d.text (fun c ↦ (s.closure c).parameters) ∧
        (s.load d).2.text (s.load d).1 = s.text v) := by
  refine ⟨fun k hk ↦ write_eq s v hk, ⟨fun h ↦ ?_, fun h ↦ ?_⟩, fun h ↦ ?_⟩
  · refine not_acyclic_iff.1 fun ha ↦ ?_
    obtain ⟨d, hd⟩ := ha.exists_unfolds hc hv
    exact hd.not_elides hn h
  · by_contra he
    obtain ⟨d, hd⟩ := exists_unfolds_of_not_elides_text hc hv he
    exact not_acyclic_iff.2 h hd.acyclic
  · have ha : s.Acyclic v := not_not.1 (mt not_acyclic_iff.1 h)
    obtain ⟨d, hd⟩ := ha.exists_unfolds hc hv
    exact ⟨d, hd, hd.text_eq, hd.text_load⟩

theorem stopless_shared {p : Address} (hp : p < 5) : shared.Stopless (.pair p) := by
  have hpart {w : Value} (hw : shared.Part (.pair p) w) :
      w = .symbol "a" ∨ w = .nil ∨ w = .integer 1 ∨ ∃ q < 5, w = .pair q := by
    induction hw with
    | self => exact .inr (.inr (.inr ⟨p, hp, rfl⟩))
    | @first q _ ih | @second q _ ih =>
      have hq : q < 5 := by simpa using ih
      interval_cases q <;> simp [shared, first, second, pair]
  constructor
  · intro name hname
    obtain h | h | h | ⟨q, -, h⟩ := hpart hname
    · cases h
      decide
    all_goals cases h
  · intro c name hclosure
    obtain h | h | h | ⟨q, -, h⟩ := hpart hclosure
    all_goals cases h

theorem write_elides_cycles_shared :
    shared.writeWithin 12 (.pair 3) ⟨"", ∅⟩ = some ⟨"(1 ((a) (a)) ...)", ∅⟩ ∧
      shared.writeWithin 12 (.pair 1) ⟨"", ∅⟩ = some ⟨"((a) (a))", ∅⟩ ∧
      shared.Circular (.pair 3) ∧ ¬ shared.Circular (.pair 1) := by
  have hthree : shared.Holds (.pair 3) := by simp [Holds, shared]
  have hone : shared.Holds (.pair 1) := by simp [Holds, shared]
  obtain ⟨hcyclic, hleft, -⟩ :=
    write_elides_cycles closed_shared hthree (stopless_shared (by decide))
  obtain ⟨hwhole, hnone, -⟩ := write_elides_cycles closed_shared hone (stopless_shared (by decide))
  have htextThree : shared.text (.pair 3) = "(1 ((a) (a)) ...)" := by cbv
  have htextOne : shared.text (.pair 1) = "((a) (a))" := by cbv
  rw [htextThree] at hcyclic hleft
  rw [htextOne] at hwhole hnone
  refine ⟨hcyclic 12 (by decide), hwhole 12 (by decide), hleft.1 ?_, mt hnone.2 ?_⟩
  · exact (by decide : "...".toList <:+: "(1 ((a) (a)) ...)".toList)
  · exact (by decide : ¬ "...".toList <:+: "((a) (a))".toList)

end Whole

end MiniScheme.Store
