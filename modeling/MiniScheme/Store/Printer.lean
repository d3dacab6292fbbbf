import MiniScheme.Store.Basic
import MiniScheme.Datum.Printer

namespace MiniScheme.Store

def atomText (s : Store) (a : Atom) : String := a.text fun c ↦ (s.closure c).parameters

def offPath (s : Store) (path : List Address) : Nat :=
  (List.range s.pairs.size).countP fun p ↦ p ∉ path

theorem offPath_cons_lt {s : Store} {path : List Address} {p : Address} (hp : p < s.pairs.size)
    (h : p ∉ path) : s.offPath (p :: path) < s.offPath path := by
  obtain ⟨before, after, hr⟩ := List.append_of_mem (List.mem_range.2 hp)
  have hle (l : List Nat) : l.countP (· ∉ p :: path) ≤ l.countP (· ∉ path) :=
    List.countP_mono_left fun a _ ha ↦ by simp_all
  have := hle before
  have := hle after
  rw [offPath, offPath, hr, List.countP_append, List.countP_append,
    List.countP_cons_of_neg (by simp), List.countP_cons_of_pos (by simpa using h)]
  omega

/-- The written form of the chain that starts with a pair, after the opening bracket. The path holds
the pairs from the outermost one to here; when one of them comes back, the rest is left out. -/
def spineText (s : Store) (path : List Address) (p : Address) : String :=
  if _hp : p ∈ path then "...)"
  else
    (match _h : s.first p with
      | .atom a => s.atomText a
      | .pair q => "(" ++ s.spineText (p :: path) q) ++
    (match _h : s.second p with
      | .nil => ")"
      | .atom a => " . " ++ s.atomText a ++ ")"
      | .pair q => " " ++ s.spineText (p :: path) q)
termination_by s.offPath path
decreasing_by
  · exact offPath_cons_lt (lt_size_of_first_eq_pair ‹_›) ‹_›
  · exact offPath_cons_lt (lt_size_of_second_eq_pair ‹_›) ‹_›

def text (s : Store) : Value → String
  | .atom a => s.atomText a
  | .pair p => "(" ++ s.spineText [] p

/-- How the first slot of a pair is written. -/
def headText (s : Store) (path : List Address) : Value → String
  | .atom a => s.atomText a
  | .pair q => "(" ++ s.spineText path q

/-- How the second slot of a pair is written, up to the closing bracket. -/
def tailText (s : Store) (path : List Address) : Value → String
  | .nil => ")"
  | .atom a => " . " ++ s.atomText a ++ ")"
  | .pair q => " " ++ s.spineText path q

theorem text_eq_headText (s : Store) (v : Value) : s.text v = s.headText [] v := by
  cases v <;> rfl

theorem spineText_of_mem {s : Store} {path : List Address} {p : Address} (hp : p ∈ path) :
    s.spineText path p = "...)" := by
  rw [spineText, dif_pos hp]

theorem spineText_of_notMem {s : Store} {path : List Address} {p : Address} (hp : p ∉ path) :
    s.spineText path p =
      s.headText (p :: path) (s.first p) ++ s.tailText (p :: path) (s.second p) := by
  rw [spineText, dif_neg hp]
  congr 1
  · split
    · next hf => rw [hf, headText]
    · next hf => rw [hf, headText]
  · split
    · next hs => rw [hs, tailText]
    · next hn hs =>
      rw [hs, tailText]
      exact hn
    · next hs => rw [hs, tailText]

end MiniScheme.Store
