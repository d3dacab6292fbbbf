import MiniScheme.Store.Equal
import MiniScheme.Store.Printer

namespace MiniScheme

namespace Datum

/-- The number of pairs on the longest way down a tree. -/
def height : Datum → Nat
  | atom _ => 0
  | cons first second => max first.height second.height + 1

end Datum

namespace Store

/-- A value is the root of a finite tree of pairs in the store, whatever parts the tree shares. -/
inductive Unfolds (s : Store) : Value → Datum → Prop
  | atom (a : Atom) : Unfolds s (.atom a) (.atom a)
  | pair {p : Address} {d e : Datum} (hp : p < s.pairs.size) (hf : Unfolds s (s.first p) d)
      (hs : Unfolds s (s.second p) e) : Unfolds s (.pair p) (.cons d e)

def Holds (s : Store) (v : Value) : Prop := ∀ p, v = .pair p → p < s.pairs.size

/-- The slots of pairs lead to pairs of the store only. -/
def Closed (s : Store) : Prop :=
  ∀ p < s.pairs.size, s.Holds (s.first p) ∧ s.Holds (s.second p)

/-- The later store has all pairs of the earlier one, with the same slots. -/
structure GrowsTo (s t : Store) : Prop where
  size_le : s.pairs.size ≤ t.pairs.size
  pair_eq {p : Address} (h : p < s.pairs.size) : t.pair p = s.pair p

variable {s t u : Store} {v w : Value} {d e : Datum} {p : Address}

theorem Unfolds.unique (h : s.Unfolds v d) (h' : s.Unfolds v e) : d = e := by
  induction h generalizing e with
  | atom a => cases h'; rfl
  | pair hp hf hs ihf ihs =>
    cases h' with
    | pair hp' hf' hs' => rw [ihf hf', ihs hs']

theorem Unfolds.holds (h : s.Unfolds v d) : s.Holds v := by
  intro p hp
  subst hp
  cases h
  assumption

theorem GrowsTo.refl (s : Store) : s.GrowsTo s := ⟨Nat.le_refl _, fun _ ↦ rfl⟩

theorem GrowsTo.trans (h : s.GrowsTo t) (h' : t.GrowsTo u) : s.GrowsTo u where
  size_le := Nat.le_trans h.size_le h'.size_le
  pair_eq hp := by rw [h'.pair_eq (Nat.lt_of_lt_of_le hp h.size_le), h.pair_eq hp]

theorem Unfolds.grow (h : s.Unfolds v d) (hg : s.GrowsTo t) : t.Unfolds v d := by
  induction h with
  | atom a => exact .atom a
  | @pair p d e hp hf hs ihf ihs =>
    have he := hg.pair_eq hp
    refine .pair (Nat.lt_of_lt_of_le hp hg.size_le) ?_ ?_
    · rwa [first, he]
    · rwa [second, he]

/-- New pairs play no part in the tree of a value that was there before them. -/
theorem Unfolds.shrink (h : t.Unfolds v d) (hg : s.GrowsTo t) (hc : s.Closed) (hv : s.Holds v) :
    s.Unfolds v d := by
  induction h with
  | atom a => exact .atom a
  | @pair p d e hp hf hs ihf ihs =>
    have hp := hv p rfl
    have he := hg.pair_eq hp
    rw [first, he] at ihf
    rw [second, he] at ihs
    exact .pair hp (ihf (hc p hp).1) (ihs (hc p hp).2)

theorem growsTo_cons (s : Store) (v w : Value) : s.GrowsTo (s.cons v w).2 where
  size_le := by simp [cons]
  pair_eq h := pair_cons_of_lt v w h

theorem Unfolds.cons (h : s.Unfolds v d) (h' : s.Unfolds w e) :
    (s.cons v w).2.Unfolds (s.cons v w).1 (.cons d e) := by
  have hg := growsTo_cons s v w
  have hp := pair_cons_size s v w
  refine .pair (by simp [Store.cons]) ?_ ?_
  · rw [first, hp]
    exact h.grow hg
  · rw [second, hp]
    exact h'.grow hg

theorem load_cons (s : Store) (d e : Datum) :
    s.load (.cons d e) =
      ((s.load d).2.load e).2.cons (s.load d).1 ((s.load d).2.load e).1 := rfl

theorem growsTo_load (s : Store) (d : Datum) : s.GrowsTo (s.load d).2 := by
  induction d generalizing s with
  | atom a => exact .refl s
  | cons d e ihd ihe =>
    rw [load_cons]
    exact ((ihd s).trans (ihe _)).trans (growsTo_cons _ _ _)

theorem unfolds_load (s : Store) (d : Datum) : (s.load d).2.Unfolds (s.load d).1 d := by
  induction d generalizing s with
  | atom a => exact .atom a
  | cons d e ihd ihe =>
    rw [load_cons]
    exact ((ihd s).grow (growsTo_load _ e)).cons (ihe _)

theorem Holds.grow (h : s.Holds v) (hg : s.GrowsTo t) : t.Holds v :=
  fun p hp ↦ Nat.lt_of_lt_of_le (h p hp) hg.size_le

theorem Closed.cons (hc : s.Closed) (hv : s.Holds v) (hw : s.Holds w) :
    (s.cons v w).2.Closed := by
  have hg := growsTo_cons s v w
  intro p hp
  rcases Nat.lt_or_ge p s.pairs.size with hlt | hge
  · rw [first, second, hg.pair_eq hlt]
    exact ⟨(hc p hlt).1.grow hg, (hc p hlt).2.grow hg⟩
  · obtain rfl : p = s.pairs.size := by
      simp only [Store.cons, Array.size_push] at hp
      omega
    rw [first, second, pair_cons_size]
    exact ⟨hv.grow hg, hw.grow hg⟩

theorem Closed.load (hc : s.Closed) (d : Datum) : (s.load d).2.Closed := by
  induction d generalizing s with
  | atom a => exact hc
  | cons d e ihd ihe =>
    rw [load_cons]
    exact (ihe (ihd hc)).cons ((unfolds_load s d).holds.grow (growsTo_load _ e))
      (unfolds_load _ e).holds

/-- The pairs of a path all have the tree somewhere below them. -/
def Above (s : Store) (path : List Address) (d : Datum) : Prop :=
  ∀ q ∈ path, ∃ t, s.Unfolds (.pair q) t ∧ d.height < t.height

theorem Above.not_mem {path : List Address} (h : s.Above path d) (hd : s.Unfolds (.pair p) d) :
    p ∉ path := by
  intro hp
  obtain ⟨t, ht, hlt⟩ := h p hp
  rw [ht.unique hd] at hlt
  exact Nat.lt_irrefl _ hlt

theorem Above.cons {path : List Address} (h : s.Above path d) (hd : s.Unfolds (.pair p) d)
    (hlt : e.height < d.height) : s.Above (p :: path) e := by
  intro q hq
  rcases List.mem_cons.1 hq with rfl | hq
  · exact ⟨d, hd, hlt⟩
  · obtain ⟨t, ht, hlt'⟩ := h q hq
    exact ⟨t, ht, Nat.lt_trans hlt hlt'⟩

theorem above_nil (s : Store) (d : Datum) : s.Above [] d := by simp [Above]

theorem height_first_lt (d e : Datum) : d.height < (Datum.cons d e).height := by
  rw [Datum.height]
  omega

theorem height_second_lt (d e : Datum) : e.height < (Datum.cons d e).height := by
  rw [Datum.height]
  omega

/-- No pair comes back on the way down a tree, so the ways are not longer than the pairs left. -/
theorem Unfolds.height_le_offPath {path : List Address} (h : s.Unfolds v d)
    (ha : s.Above path d) : d.height ≤ s.offPath path := by
  induction h generalizing path with
  | atom a => exact Nat.zero_le _
  | @pair p d e hp hf hs ihf ihs =>
    have hd : s.Unfolds (.pair p) (.cons d e) := .pair hp hf hs
    have hlt := offPath_cons_lt hp (ha.not_mem hd)
    have h₁ := ihf (ha.cons hd (height_first_lt d e))
    have h₂ := ihs (ha.cons hd (height_second_lt d e))
    rw [Datum.height]
    omega

theorem Unfolds.height_le_size (h : s.Unfolds v d) : d.height ≤ s.pairs.size := by
  have := h.height_le_offPath (above_nil s d)
  simpa [offPath] using this

/-- Acyclic values are written as the trees they unfold to, as if nothing in them were shared. -/
theorem Unfolds.headText_tailText_eq {path : List Address} (h : s.Unfolds v d)
    (ha : s.Above path d) :
    s.headText path v = d.text (fun c ↦ (s.closure c).parameters) ∧
      s.tailText path v = d.tailText fun c ↦ (s.closure c).parameters := by
  induction h generalizing path with
  | atom a =>
    refine ⟨by rw [headText, atomText, Datum.text], ?_⟩
    cases a with
    | nil => rw [tailText, Datum.tailText]
    | _ => simp only [tailText, Datum.tailText, atomText]
  | @pair p d e hp hf hs ihf ihs =>
    have hd : s.Unfolds (.pair p) (.cons d e) := .pair hp hf hs
    have hhead := (ihf (ha.cons hd (height_first_lt d e))).1
    have htail := (ihs (ha.cons hd (height_second_lt d e))).2
    rw [headText, tailText, spineText_of_notMem (ha.not_mem hd), hhead, htail, Datum.text,
      Datum.tailText]
    simp only [String.append_assoc, and_self]

theorem Unfolds.text_eq (h : s.Unfolds v d) :
    s.text v = d.text fun c ↦ (s.closure c).parameters := by
  rw [text_eq_headText]
  exact (h.headText_tailText_eq (above_nil s d)).1

theorem equalWithin_of_unfolds {k : Nat} (hv : s.Unfolds v d) (hw : s.Unfolds w d)
    (hk : d.height ≤ k) : s.equalWithin k v w = true := by
  induction hv generalizing w k with
  | atom a =>
    cases hw
    cases k <;> simp [equalWithin]
  | @pair p d e hp hf hs ihf ihs =>
    cases hw with
    | @pair q _ _ hq hf' hs' =>
      rw [Datum.height] at hk
      obtain ⟨k, rfl⟩ := Nat.exists_eq_add_of_lt (Nat.lt_of_lt_of_le (Nat.succ_pos _) hk)
      rw [Nat.zero_add] at hk ⊢
      rw [equalWithin, ihf hf' (by omega), ihs hs' (by omega)]
      simp

theorem unfolds_of_equalWithin {k : Nat} (hc : s.Closed) (hv : s.Unfolds v d) (hw : s.Holds w)
    (h : s.equalWithin k v w = true) : s.Unfolds w d := by
  induction hv generalizing w k with
  | atom a =>
    cases w with
    | atom b =>
      cases k <;> simp [equalWithin] at h <;> exact h ▸ .atom a
    | pair q => cases k <;> simp [equalWithin] at h
  | @pair p d e hp hf hs ihf ihs =>
    cases w with
    | atom b => cases k <;> simp [equalWithin] at h
    | pair q =>
      have hq := hw q rfl
      by_cases he : p = q
      · exact he ▸ .pair hp hf hs
      · cases k with
        | zero => simp [equalWithin, he] at h
        | succ k =>
          simp only [equalWithin, beq_iff_eq, he, Bool.or_eq_true, Bool.and_eq_true, false_or] at h
          exact .pair hq (ihf (hc q hq).1 h.1) (ihs (hc q hq).2 h.2)

theorem Unfolds.equal (hv : s.Unfolds v d) (hw : s.Unfolds w d) : s.equal v w = true :=
  equalWithin_of_unfolds hv hw (Nat.le_succ_of_le hv.height_le_size)

/-- A value equals an acyclic one exactly if it unfolds to the same tree. -/
theorem equal_iff_unfolds (hc : s.Closed) (hv : s.Unfolds v d) (hw : s.Holds w) :
    s.equal v w = true ↔ s.Unfolds w d := by
  constructor
  · exact unfolds_of_equalWithin hc hv hw
  · exact hv.equal

/-- A value of the store before equals a loaded datum exactly if it unfolds to it. -/
theorem equal_load_iff (hc : s.Closed) (hv : s.Holds v) :
    (s.load d).2.equal (s.load d).1 v = true ↔ s.Unfolds v d := by
  have hg := growsTo_load s d
  rw [equal_iff_unfolds (hc.load d) (unfolds_load s d) (hv.grow hg)]
  exact ⟨fun h ↦ h.shrink hg hc hv, fun h ↦ h.grow hg⟩

end Store

end MiniScheme
