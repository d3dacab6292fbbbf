import MiniScheme.Proofs.Datum.RoundTrip
import MiniScheme.Proofs.Store.Acyclic

namespace MiniScheme

theorem Builtin.name_injective : Function.Injective Builtin.name :=
  fun b c h ↦ List.inj_on_of_nodup_map nodup_name_all b.mem_all c.mem_all h

namespace Atom

/-- Two atoms of one kind: numbers and symbols go by their value, built-ins by their name, closures
by their identity. -/
inductive Same : Atom → Atom → Prop
  | nil : Same nil nil
  | integer {m n : Int64} (h : m.toInt = n.toInt) : Same (integer m) (integer n)
  | symbol {name other : String} (h : name.toList = other.toList) :
      Same (symbol name) (symbol other)
  | builtin {b c : Builtin} (h : b.name = c.name) : Same (builtin b) (builtin c)
  | closure (address : Address) : Same (closure address) (closure address)

/-- Atoms that can be read back: no procedures, and of the symbols those that are lexemes. -/
inductive Readable : Atom → Prop
  | nil : Readable nil
  | integer (n : Int64) : Readable (integer n)
  | symbol {name : String} {longer : Char → Bool}
      (h : Lexeme.Denotes name.toList longer (.symbol name)) : Readable (symbol name)

variable {a b : Atom}

theorem same_iff : a.Same b ↔ a = b := by
  constructor
  · intro h
    cases h with
    | nil => rfl
    | integer h => rw [Int64.toInt_inj.1 h]
    | symbol h => rw [String.toList_inj.1 h]
    | builtin h => rw [Builtin.name_injective h]
    | closure => rfl
  · rintro rfl
    cases a with
    | nil => exact .nil
    | integer n => exact .integer rfl
    | symbol name => exact .symbol rfl
    | builtin b => exact .builtin rfl
    | closure address => exact .closure address

end Atom

namespace Datum

/-- Trees of one shape, with the same atoms at the same places. -/
inductive Same : Datum → Datum → Prop
  | atom {a b : Atom} (h : a.Same b) : Same (atom a) (atom b)
  | cons {d e d' e' : Datum} (hf : Same d d') (hs : Same e e') : Same (cons d e) (cons d' e')

theorem same_iff {d e : Datum} : d.Same e ↔ d = e := by
  constructor
  · intro h
    induction h with
    | atom h => rw [Atom.same_iff.1 h]
    | cons hf hs ihf ihs => rw [ihf, ihs]
  · rintro rfl
    induction d with
    | atom a => exact .atom (Atom.same_iff.2 rfl)
    | cons d e ihd ihe => exact .cons ihd ihe

end Datum

namespace Store

variable {s t : Store} {v w x y z : Value} {d e : Datum} {k : Nat}

/-- Acyclic values are equal if they unfold to the same tree, and a comparison of them ends on the
way down. -/
theorem equalWithin_iff_eq (hc : s.Closed) (hv : s.Unfolds v d) (hw : s.Unfolds w e)
    (hk : d.height ≤ k) : s.equalWithin k v w = true ↔ d = e := by
  constructor
  · exact fun h ↦ (unfolds_of_equalWithin hc hv hw.holds h).unique hw
  · rintro rfl
    exact equalWithin_of_unfolds hv hw hk

theorem equal_iff_eq (hc : s.Closed) (hv : s.Unfolds v d) (hw : s.Unfolds w e) :
    s.equal v w = true ↔ d = e :=
  equalWithin_iff_eq hc hv hw (Nat.le_succ_of_le hv.height_le_size)

theorem Unfolds.readable (h : s.Unfolds v d) (ha : ∀ a, s.Part v (.atom a) → a.Readable) :
    d.Readable := by
  induction h with
  | atom a =>
    cases ha a .self with
    | nil => exact .nil
    | integer n => exact .integer n
    | symbol h => exact .symbol h
  | @pair p d e hp hf hs ihf ihs =>
    have hd := ihf fun a h ↦ ha a ((Part.self.first).trans h)
    have he := ihs fun a h ↦ ha a ((Part.self.second).trans h)
    exact .cons hd he

theorem Readable.part (h : s.Readable v) (hw : s.Part v w) : s.Readable w := by
  induction hw with
  | self => exact h
  | first _ ih =>
    obtain ⟨d, hd, hr⟩ := ih
    cases hd with
    | pair _ hf _ =>
      cases hr with
      | cons hr _ => exact ⟨_, hf, hr⟩
  | second _ ih =>
    obtain ⟨d, hd, hr⟩ := ih
    cases hd with
    | pair _ _ hs =>
      cases hr with
      | cons _ hr => exact ⟨_, hs, hr⟩

theorem Readable.atom {a : Atom} (h : s.Readable (.atom a)) : a.Readable := by
  obtain ⟨d, hd, hr⟩ := h
  cases hd
  cases hr with
  | nil => exact .nil
  | integer n => exact .integer n
  | symbol h => exact .symbol h

theorem Unfolds.readable_iff (h : s.Unfolds v d) :
    d.Readable ↔ ∀ a, s.Part v (.atom a) → a.Readable :=
  ⟨fun hd _ ha ↦ (Readable.part ⟨d, h, hd⟩ ha).atom, h.readable⟩

/-- What is written alike reads back as the same tree. -/
theorem Readable.equal_of_text_eq (hv : s.Readable v) (hw : s.Readable w)
    (h : s.text v = s.text w) : s.equal v w = true := by
  obtain ⟨d, hd, hvd, -⟩ := hv.exists_ofText
  obtain ⟨e, he, hwe, -⟩ := hw.exists_ofText
  rw [h, he] at hd
  cases hd
  exact hvd.equal hwe

/-- Acyclic values are compared as the trees they unfold to. So equality is an equivalence that does
not see what is shared, and equal values are written alike; values that can be read back are equal
if they are written alike. -/
theorem equal_compares_trees (hc : s.Closed) (hx : s.Holds x) (hy : s.Holds y) (hz : s.Holds z)
    (ax : s.Acyclic x) (ay : s.Acyclic y) (az : s.Acyclic z) :
    (∀ k, s.pairs.size < k → s.equalWithin k x y = s.equal x y) ∧
    (∃ d e, s.Unfolds x d ∧ s.Unfolds y e) ∧
    (∀ d e, s.Unfolds x d → s.Unfolds y e → (s.equal x y = true ↔ d.Same e)) ∧
    s.equal x x = true ∧ s.equal x y = s.equal y x ∧
    (s.equal x y = true → s.equal y z = true → s.equal x z = true) ∧
    (∀ (t : Store) x' y' d e, t.Closed → s.Unfolds x d → s.Unfolds y e → t.Unfolds x' d →
      t.Unfolds y' e → t.equal x' y' = s.equal x y) ∧
    (s.equal x y = true → s.text x = s.text y) ∧
    ((∀ a, s.Part x (.atom a) → a.Readable) → (∀ a, s.Part y (.atom a) → a.Readable) →
      s.text x = s.text y → s.equal x y = true) := by
  obtain ⟨d, hd⟩ := ax.exists_unfolds hc hx
  obtain ⟨e, he⟩ := ay.exists_unfolds hc hy
  obtain ⟨f, hf⟩ := az.exists_unfolds hc hz
  refine ⟨fun k hk ↦ ?_, ⟨d, e, hd, he⟩, fun d e hd he ↦ ?_, hd.equal hd, ?_, ?_,
    fun t x' y' d e ht hd he hd' he' ↦ ?_, fun h ↦ ?_, fun rx ry h ↦ ?_⟩
  · have hle : d.height ≤ k := Nat.le_trans hd.height_le_size (Nat.le_of_lt hk)
    rw [Bool.eq_iff_iff, equalWithin_iff_eq hc hd he hle, equal_iff_eq hc hd he]
  · rw [equal_iff_eq hc hd he, Datum.same_iff]
  · rw [Bool.eq_iff_iff, equal_iff_eq hc hd he, equal_iff_eq hc he hd, eq_comm]
  · rw [equal_iff_eq hc hd he, equal_iff_eq hc he hf, equal_iff_eq hc hd hf]
    exact Eq.trans
  · rw [Bool.eq_iff_iff, equal_iff_eq ht hd' he', equal_iff_eq hc hd he]
  · rw [equal_iff_eq hc hd he] at h
    rw [hd.text_eq, he.text_eq, h]
  · exact Readable.equal_of_text_eq ⟨d, hd, hd.readable_iff.2 rx⟩ ⟨e, he, he.readable_iff.2 ry⟩ h

/-- Two pairs that hold equal lists, one of them the same list twice. -/
def twins : Store where
  pairs := #[⟨.symbol "a", .nil⟩, ⟨.symbol "a", .nil⟩, ⟨.pair 0, .pair 0⟩, ⟨.pair 1, .pair 0⟩]
  closures := #[]
  scopes := #[]

theorem closed_twins : twins.Closed := by
  intro p hp
  change p < 4 at hp
  interval_cases p <;> simp [Holds, twins, first, second, pair]

theorem equal_compares_trees_twins :
    twins.Closed ∧ (∀ v ∈ [Value.pair 2, .pair 3], twins.Holds v ∧ twins.Acyclic v ∧
      ∀ a, twins.Part v (.atom a) → a.Readable) ∧
      twins.equal (.pair 2) (.pair 3) = true ∧
      twins.text (.pair 2) = twins.text (.pair 3) := by
  have ha : (Datum.symbol "a").Readable :=
    .symbol (.symbol (by decide : Lexeme.isSymbolStart 'a' = true) fun _ h ↦ nomatch h)
  have hlist : (Datum.cons (.symbol "a") .nil).Readable := .cons ha .nil
  have h₀ : twins.Unfolds (.pair 0) (.cons (.symbol "a") .nil) :=
    .pair (by decide) (.atom _) (.atom _)
  have h₁ : twins.Unfolds (.pair 1) (.cons (.symbol "a") .nil) :=
    .pair (by decide) (.atom _) (.atom _)
  have h₂ := Unfolds.pair (s := twins) (p := 2) (by decide) h₀ h₀
  have h₃ := Unfolds.pair (s := twins) (p := 3) (by decide) h₁ h₀
  have hr₂ := h₂.readable_iff.1 (.cons hlist hlist)
  have hr₃ := h₃.readable_iff.1 (.cons hlist hlist)
  obtain ⟨-, -, htrees, -, -, -, -, htext, hback⟩ := equal_compares_trees closed_twins
    h₂.holds h₃.holds h₂.holds h₂.acyclic h₃.acyclic h₂.acyclic
  have heq := (htrees _ _ h₂ h₃).2 (Datum.same_iff.2 rfl)
  refine ⟨closed_twins, ?_, hback hr₂ hr₃ (htext heq), htext heq⟩
  simp only [List.forall_mem_cons]
  exact ⟨⟨h₂.holds, h₂.acyclic, hr₂⟩, ⟨h₃.holds, h₃.acyclic, hr₃⟩, List.forall_mem_nil _⟩

end Store

end MiniScheme
