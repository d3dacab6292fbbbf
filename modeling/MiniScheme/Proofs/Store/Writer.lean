import MiniScheme.Store.Printer
import Mathlib.Data.Finset.Dedup
import Mathlib.Data.Finset.Erase
import Mathlib.Data.Finset.Lattice.Lemmas
import Mathlib.Tactic.Tauto

namespace MiniScheme

/-- A printer at work: what it has written, and one set of pairs for the path to where it is. -/
structure Writer where
  written : String
  onPath : Finset Address

namespace Writer

def put (w : Writer) (text : String) : Writer := { w with written := w.written ++ text }

def enter (w : Writer) (p : Address) : Writer := { w with onPath := insert p w.onPath }

def leave (w : Writer) (spine : List Address) : Writer :=
  { w with onPath := spine.foldl Finset.erase w.onPath }

end Writer

namespace Store

mutual

/-- Writes a value, with at most `k` calls inside each other. -/
def writeWithin (s : Store) : Nat → Value → Writer → Option Writer
  | _, .atom a, w => some (w.put (s.atomText a))
  | 0, .pair _, _ => none
  | k + 1, .pair p, w => do
    let (w, spine) ← s.writeSpineWithin k p [] (w.put "(")
    return w.leave spine

/-- Writes a chain pair by pair. The pairs met are handed back, since they stay on the path until
the chain is finished. -/
def writeSpineWithin (s : Store) : Nat → Address → List Address → Writer →
    Option (Writer × List Address)
  | 0, _, _, _ => none
  | k + 1, p, spine, w =>
    if p ∈ w.onPath then some (w.put "...)", spine)
    else do
      let w ← s.writeWithin k (s.first p) (w.enter p)
      match s.second p with
      | .nil => return (w.put ")", spine ++ [p])
      | .atom a =>
        let w ← s.writeWithin k (.atom a) (w.put " . ")
        return (w.put ")", spine ++ [p])
      | .pair q => s.writeSpineWithin k q (spine ++ [p]) (w.put " ")

end

variable {s : Store} {w : Writer} {p q : Address} {path spine : List Address} {k : Nat}

theorem mem_foldl_erase (A : Finset Address) (spine : List Address) (q : Address) :
    q ∈ spine.foldl Finset.erase A ↔ q ∈ A ∧ q ∉ spine := by
  induction spine generalizing A with
  | nil => simp
  | cons p spine ih =>
    rw [List.foldl_cons, ih, Finset.mem_erase, List.mem_cons]
    tauto

/-- After a chain the path is what it was before. -/
theorem foldl_erase_union (h : ∀ q ∈ spine, q ∉ w.onPath) :
    spine.foldl Finset.erase (w.onPath ∪ spine.toFinset) = w.onPath := by
  ext q
  rw [mem_foldl_erase, Finset.mem_union, List.mem_toFinset]
  have := h q
  tauto

/-- From any writer with this path, the chain is written as it is behind the path, and no more calls
are inside each other than two for each pair that is not on it. The pairs met are new to the
path. -/
def Passes (s : Store) (path : List Address) (p : Address) : Prop :=
  ∀ (k : Nat) (w : Writer) (spine : List Address), 2 * s.offPath path < k →
    (∀ q, q ∈ w.onPath ↔ q ∈ path) →
    ∃ met : List Address, (∀ q ∈ met, q ∉ w.onPath) ∧
      s.writeSpineWithin k p spine w =
        some (⟨w.written ++ s.spineText path p, w.onPath ∪ met.toFinset⟩, spine ++ met)

theorem write_of_passes {v : Value} (h : ∀ p, v = .pair p → s.Passes path p)
    (hk : 2 * s.offPath path < k) (hw : ∀ q, q ∈ w.onPath ↔ q ∈ path) :
    s.writeWithin (k + 1) v w = some (w.put (s.headText path v)) := by
  cases v with
  | atom a => rw [writeWithin, headText]
  | pair p =>
    obtain ⟨met, hmet, he⟩ := h p rfl k (w.put "(") [] hk hw
    have hleave : met.foldl Finset.erase (w.onPath ∪ met.toFinset) = w.onPath :=
      foldl_erase_union hmet
    rw [writeWithin, he]
    simp [Writer.leave, Writer.put, hleave, headText, String.append_assoc]

theorem passes_of_mem (h : p ∈ path) : s.Passes path p := by
  intro k w spine hk hw
  obtain ⟨k, rfl⟩ := Nat.exists_eq_add_of_lt hk
  refine ⟨[], List.forall_mem_nil _, ?_⟩
  rw [writeSpineWithin, if_pos ((hw p).2 h), spineText_of_mem h]
  simp [Writer.put]

/-- A pair outside the store is written as two empty lists. -/
theorem passes_of_size_le (hp : s.pairs.size ≤ p) (h : p ∉ path) : s.Passes path p := by
  intro k w spine hk hw
  obtain ⟨k, rfl⟩ := Nat.exists_eq_add_of_lt hk
  have hpair : s.pair p = ⟨.nil, .nil⟩ := by simp [pair, Nat.not_lt.2 hp]
  have hnew : ∀ q ∈ [p], q ∉ w.onPath := by simpa [hw] using h
  refine ⟨[p], hnew, ?_⟩
  rw [writeSpineWithin, if_neg (mt (hw p).1 h), spineText_of_notMem h, first, second, hpair]
  simp [writeWithin, Writer.put, Writer.enter, headText, tailText, String.append_assoc]

theorem passes_of_notMem (hp : p < s.pairs.size) (h : p ∉ path)
    (hf : ∀ q, s.first p = .pair q → s.Passes (p :: path) q)
    (hs : ∀ q, s.second p = .pair q → s.Passes (p :: path) q) : s.Passes path p := by
  intro k w spine hk hw
  have hlt := offPath_cons_lt hp h
  obtain ⟨k, rfl⟩ : ∃ n, k = n + 2 := ⟨k - 2, by omega⟩
  have hpath : ∀ q, q ∈ (w.enter p).onPath ↔ q ∈ p :: path := by
    simp [Writer.enter, hw]
  rw [writeSpineWithin, if_neg (mt (hw p).1 h), write_of_passes hf (by omega) hpath,
    spineText_of_notMem h]
  rcases hsecond : s.second p with a | q
  · have hnew : ∀ q ∈ [p], q ∉ w.onPath := by simpa [hw] using h
    refine ⟨[p], hnew, ?_⟩
    cases a <;> simp [writeWithin, Writer.put, Writer.enter, tailText, String.append_assoc]
  · let next := ((w.enter p).put (s.headText (p :: path) (s.first p))).put " "
    obtain ⟨met, hmet, he⟩ := hs q hsecond (k + 1) next (spine ++ [p]) (by omega) hpath
    have hnew : ∀ r ∈ p :: met, r ∉ w.onPath :=
      List.forall_mem_cons.2 ⟨mt (hw p).1 h, fun r hr hold ↦
        hmet r hr (Finset.mem_insert_of_mem hold)⟩
    refine ⟨p :: met, hnew, ?_⟩
    have hset : insert p w.onPath ∪ met.toFinset = w.onPath ∪ (p :: met).toFinset := by
      rw [List.toFinset_cons, Finset.insert_union, Finset.union_insert]
    simp only [Option.bind_eq_bind, Option.bind_some]
    rw [he]
    simp [next, Writer.put, Writer.enter, tailText, String.append_assoc, hset]

theorem passes (s : Store) (path : List Address) (p : Address) : s.Passes path p := by
  induction path, p using spineText.induct s with
  | case1 path p h => exact passes_of_mem h
  | case2 path p h hf hs =>
    rcases Nat.lt_or_ge p s.pairs.size with hlt | hge
    · exact passes_of_notMem hlt h hf hs
    · exact passes_of_size_le hge h

/-- The writer comes to an end on every value, with its path empty again. -/
theorem write_eq (s : Store) (v : Value) {k : Nat} (hk : 2 * s.pairs.size + 1 < k) :
    s.writeWithin k v ⟨"", ∅⟩ = some ⟨s.text v, ∅⟩ := by
  obtain ⟨k, rfl⟩ : ∃ n, k = n + 1 := ⟨k - 1, by omega⟩
  have hw : ∀ q, q ∈ (⟨"", ∅⟩ : Writer).onPath ↔ q ∈ [] := by simp
  have hoff : s.offPath [] = s.pairs.size := by simp [offPath]
  rw [write_of_passes (fun p _ ↦ passes s [] p) (by omega) hw, text_eq_headText]
  simp [Writer.put]

end Store

end MiniScheme
