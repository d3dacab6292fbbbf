import MiniScheme.Proofs.Store.Acyclic

namespace MiniScheme

/-- A place in a pair that holds a value. -/
inductive Slot
  | first (p : Address)
  | second (p : Address)
  deriving DecidableEq, Repr

def Slot.pair : Slot → Address
  | first p | second p => p

namespace Store

def slot (s : Store) : Slot → Value
  | .first p => s.first p
  | .second p => s.second p

def setSlot (s : Store) : Slot → Value → Store
  | .first p => s.setFirst p
  | .second p => s.setSecond p

/-- One assignment after the other. -/
def setSlots (s : Store) (changes : List (Slot × Value)) : Store :=
  changes.foldl (fun s c ↦ s.setSlot c.1 c.2) s

/-- The pairs of a kind hold no pairs but those. -/
def Confines (s : Store) (A : Address → Prop) : Prop :=
  ∀ slot : Slot, A slot.pair → ∀ p, s.slot slot = .pair p → A p

/-- Assignments to the pairs of a value that store atoms and such pairs. -/
def Inside (s : Store) (v : Value) (changes : List (Slot × Value)) : Prop :=
  ∀ c ∈ changes, s.Part v (.pair c.1.pair) ∧ ∀ p, c.2 = .pair p → s.Part v (.pair p)

/-- No pair is in both values. -/
def Separate (s : Store) (v w : Value) : Prop := ∀ p, s.Part v (.pair p) → ¬ s.Part w (.pair p)

variable {s t : Store} {v w x : Value} {p : Address} {A : Address → Prop} {slot : Slot}
  {changes : List (Slot × Value)}

theorem slot_setSlot (s : Store) (slot other : Slot) (x : Value) :
    (s.setSlot slot x).slot other = x ∨ (s.setSlot slot x).slot other = s.slot other := by
  cases slot with
  | first p =>
    cases other with
    | first q => exact (s.pair_setFirst p q x).imp (congrArg Pair.first) (congrArg Pair.first)
    | second q => exact .inr (s.second_setFirst p q x)
  | second p =>
    cases other with
    | first q => exact .inr (s.first_setSecond p q x)
    | second q => exact (s.pair_setSecond p q x).imp (congrArg Pair.second) (congrArg Pair.second)

theorem Confines.of_part (h : s.Confines A) (hv : ∀ q, v = .pair q → A q)
    (hp : s.Part v (.pair p)) : A p := by
  generalize hw : Value.pair p = w at hp
  induction hp generalizing p with
  | self => exact hv p hw.symm
  | @first q _ ih => exact h (.first q) (ih rfl) p hw.symm
  | @second q _ ih => exact h (.second q) (ih rfl) p hw.symm

theorem confines_part (s : Store) (v : Value) : s.Confines fun p ↦ s.Part v (.pair p) := by
  intro slot hslot p hp
  rw [← hp]
  cases slot with
  | first q => exact .first hslot
  | second q => exact .second hslot

theorem Confines.setSlot (h : s.Confines A) (hx : ∀ q, x = .pair q → A q) :
    (s.setSlot slot x).Confines A := by
  intro other hother p hp
  rcases s.slot_setSlot slot other x with he | he
  · exact hx p (he.symm.trans hp)
  · exact h other hother p (he.symm.trans hp)

theorem Confines.setSlots (h : s.Confines A) (hx : ∀ c ∈ changes, ∀ q, c.2 = .pair q → A q) :
    (s.setSlots changes).Confines A := by
  induction changes generalizing s with
  | nil => exact h
  | cons c changes ih =>
    obtain ⟨hc, hchanges⟩ := List.forall_mem_cons.1 hx
    exact ih (h.setSlot hc) hchanges

section Texts

variable (hc : t.closures = s.closures)
include hc

end Texts

theorem Inside.part (h : s.Inside v changes) (hp : (s.setSlots changes).Part v (.pair p)) :
    s.Part v (.pair p) :=
  ((s.confines_part v).setSlots fun c hc ↦ (h c hc).2).of_part (fun _ hq ↦ hq ▸ .self) hp

theorem Separate.symm (h : s.Separate v w) : s.Separate w v := fun p hw hv ↦ h p hv hw

end Store

end MiniScheme
