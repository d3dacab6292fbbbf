import MiniScheme.Proofs.Text.Run
import MiniScheme.Token.Lexeme

namespace MiniScheme

namespace Lexeme

open Text

/-- The number that a run of digits writes, however long the run is. -/
def decimal (digits : List Char) : Nat := Nat.ofDigitChars 10 digits 0

/-- What a lexeme is: its characters, those that would make it longer if one of them came next, and
the token it stands for. The exact value of a constant is reduced to the word size only once. -/
inductive Denotes : List Char → (Char → Bool) → Token → Prop
  | punctuation (p : Punctuation) : Denotes [p.char] (fun _ ↦ false) (.punctuation p)
  | digits {ds : List Char} (hne : ds ≠ []) (hd : ∀ c ∈ ds, c.isDigit = true) :
      Denotes ds Char.isDigit (.constant (Int64.ofInt (decimal ds)))
  | plus {ds : List Char} (hne : ds ≠ []) (hd : ∀ c ∈ ds, c.isDigit = true) :
      Denotes ('+' :: ds) Char.isDigit (.constant (Int64.ofInt (decimal ds)))
  | minus {ds : List Char} (hne : ds ≠ []) (hd : ∀ c ∈ ds, c.isDigit = true) :
      Denotes ('-' :: ds) Char.isDigit (.constant (Int64.ofInt (-decimal ds)))
  | symbol {c : Char} {cs : List Char} (hc : isSymbolStart c = true)
      (hi : ∀ d ∈ cs, isSymbolInner d = true) :
      Denotes (c :: cs) isSymbolInner (.symbol (String.ofList (c :: cs)))
  | sign {c : Char} (hc : isSign c = true) : Denotes [c] Char.isDigit (.symbol (String.ofList [c]))

def Starts (c : Char) : Prop := ∃ cs longer token, Denotes (c :: cs) longer token

variable {c : Char} {lexeme rest : List Char} {longer : Char → Bool} {token : Token}

theorem isSign_iff : isSign c = true ↔ c = '+' ∨ c = '-' := by simp [isSign]

theorem isSymbolStart_iff :
    isSymbolStart c = true ↔ c.isAlpha = true ∨ c ∈ ['<', '=', '>', '*', '/', '#'] := by
  simp [isSymbolStart, or_assoc]

theorem toNat_of_isDigit (h : c.isDigit = true) : 48 ≤ c.toNat ∧ c.toNat ≤ 57 :=
  Char.isDigit_iff_toNat.1 h

theorem toNat_of_isAlpha (h : c.isAlpha = true) : 65 ≤ c.toNat ∧ c.toNat ≤ 122 := by
  rcases Bool.or_eq_true_iff.1 h with hu | hl
  · obtain ⟨hlow, hhigh⟩ : 'A'.val ≤ c.val ∧ c.val ≤ 'Z'.val := of_decide_eq_true hu
    exact ⟨UInt32.le_iff_toNat_le.1 hlow, Nat.le_trans (UInt32.le_iff_toNat_le.1 hhigh) (by decide)⟩
  · obtain ⟨hlow, hhigh⟩ := Bool.and_eq_true_iff.1 hl
    have hlow : 'a'.val ≤ c.val := of_decide_eq_true hlow
    have hhigh : c.val ≤ 'z'.val := of_decide_eq_true hhigh
    exact ⟨Nat.le_trans (by decide) (UInt32.le_iff_toNat_le.1 hlow), UInt32.le_iff_toNat_le.1 hhigh⟩

theorem toNat_of_isSymbolStart (h : isSymbolStart c = true) : 33 ≤ c.toNat ∧ c.toNat ≤ 122 := by
  rcases isSymbolStart_iff.1 h with ha | hm
  · have := toNat_of_isAlpha ha
    omega
  · simp only [List.mem_cons, List.not_mem_nil, or_false] at hm
    rcases hm with rfl | rfl | rfl | rfl | rfl | rfl <;> decide

theorem isDigit_of_isSymbolStart (h : isSymbolStart c = true) : c.isDigit = false := by
  rcases isSymbolStart_iff.1 h with ha | hm
  · have := toNat_of_isAlpha ha
    cases hd : c.isDigit with
    | false => rfl
    | true =>
      have := toNat_of_isDigit hd
      omega
  · simp only [List.mem_cons, List.not_mem_nil, or_false] at hm
    rcases hm with rfl | rfl | rfl | rfl | rfl | rfl <;> rfl

theorem isSign_of_isSymbolStart (h : isSymbolStart c = true) : isSign c = false := by
  cases hs : isSign c with
  | false => rfl
  | true => rcases isSign_iff.1 hs with rfl | rfl <;> exact h.symm

theorem ofChar?_eq_none {inside : Char → Bool} (hp : ∀ p : Punctuation, inside p.char = false)
    (h : inside c = true) : Punctuation.ofChar? c = none := by
  cases hc : Punctuation.ofChar? c with
  | none => rfl
  | some p =>
    have hi := hp p
    rw [← Punctuation.ofChar?_eq_some_iff.1 hc, h] at hi
    cases hi

theorem ofChar?_of_isDigit (h : c.isDigit = true) : Punctuation.ofChar? c = none :=
  ofChar?_eq_none (fun p ↦ by cases p <;> rfl) h

theorem ofChar?_of_isSign (h : isSign c = true) : Punctuation.ofChar? c = none :=
  ofChar?_eq_none (fun p ↦ by cases p <;> rfl) h

theorem ofChar?_of_isSymbolStart (h : isSymbolStart c = true) : Punctuation.ofChar? c = none :=
  ofChar?_eq_none (fun p ↦ by cases p <;> rfl) h

theorem ofChar?_char (p : Punctuation) : Punctuation.ofChar? p.char = some p :=
  Punctuation.ofChar?_eq_some_iff.2 rfl

/-- Wrapping at every digit comes to the same as wrapping once at the end. -/
theorem digitsValue_eq (ds : List Char) : digitsValue ds = Int64.ofInt (decimal ds) := by
  have hfold (value : Nat) : ds.foldl (fun v c ↦ v * 10 + digitValue c) (Int64.ofInt value) =
      Int64.ofInt (Nat.ofDigitChars 10 ds value) := by
    induction ds generalizing value with
    | nil => rfl
    | cons c ds ih =>
      rw [List.foldl_cons, Nat.ofDigitChars_cons, ← ih]
      congr 1
      simp [digitValue, Int64.ofInt_eq_ofNat, Int64.mul_comm]
  exact hfold 0

theorem split?_append (h : Denotes lexeme longer token) (hr : EndsRun longer rest) :
    split? (lexeme ++ rest) = some (lexeme, rest) := by
  cases h with
  | punctuation p => simp [split?, ofChar?_char]
  | @digits ds hne hd =>
    obtain ⟨c, cs, rfl⟩ := List.exists_cons_of_ne_nil hne
    have hc := hd c (by simp)
    have hcs : ∀ d ∈ cs, d.isDigit = true := fun d hm ↦ hd d (List.mem_cons_of_mem c hm)
    simp [split?, ofChar?_of_isDigit hc, hc, takeWhile_run hcs hr, dropWhile_run hcs hr]
  | plus hne hd | minus hne hd =>
    simp [split?, Punctuation.ofChar?, isSign, takeWhile_run hd hr, dropWhile_run hd hr]
  | symbol hc hi =>
    simp [split?, ofChar?_of_isSymbolStart hc, isDigit_of_isSymbolStart hc,
      isSign_of_isSymbolStart hc, hc, takeWhile_run hi hr, dropWhile_run hi hr]
  | @sign c hc =>
    have hn : ∀ d ∈ ([] : List Char), d.isDigit = true := by simp
    have ht := takeWhile_run hn hr
    have hd := dropWhile_run hn hr
    rw [List.nil_append] at ht hd
    simp [split?, ofChar?_of_isSign hc, hc, ht, hd]

theorem isConstant_cons_of_isDigit (h : c.isDigit = true) (cs : List Char) :
    isConstant (c :: cs) = true := by
  cases cs <;> simp [isConstant, h]

theorem isConstant_cons_of_isSymbolStart (h : isSymbolStart c = true) (cs : List Char) :
    isConstant (c :: cs) = false := by
  cases cs <;> simp [isConstant, isDigit_of_isSymbolStart h, isSign_of_isSymbolStart h]

theorem constantValue_of_isDigit (h : c.isDigit = true) (cs : List Char) :
    constantValue (c :: cs) = digitsValue (c :: cs) := by
  rw [constantValue]
  all_goals
    intro ds hds
    cases hds
    cases h

theorem ofLexeme_eq (h : Denotes lexeme longer token) : Token.ofLexeme lexeme = token := by
  cases h with
  | punctuation p => simp [Token.ofLexeme, ofChar?_char]
  | @digits ds hne hd =>
    obtain ⟨c, cs, rfl⟩ := List.exists_cons_of_ne_nil hne
    have hc := hd c (by simp)
    simp [Token.ofLexeme, ofChar?_of_isDigit hc, isConstant_cons_of_isDigit hc,
      constantValue_of_isDigit hc, digitsValue_eq]
  | @plus ds hne hd | @minus ds hne hd =>
    obtain ⟨c, cs, rfl⟩ := List.exists_cons_of_ne_nil hne
    have hc := hd c (by simp)
    simp [Token.ofLexeme, Punctuation.ofChar?, isConstant, isSign, hc, constantValue,
      digitsValue_eq]
  | symbol hc hi =>
    simp [Token.ofLexeme, ofChar?_of_isSymbolStart hc, isConstant_cons_of_isSymbolStart hc]
  | @sign c hc =>
    have hd : c.isDigit = false := by rcases isSign_iff.1 hc with rfl | rfl <;> rfl
    simp [Token.ofLexeme, ofChar?_of_isSign hc, isConstant, hd]

theorem exists_denotes_of_isSign (h : isSign c = true) {ds : List Char}
    (hd : ∀ d ∈ ds, d.isDigit = true) : ∃ token, Denotes (c :: ds) Char.isDigit token := by
  cases ds with
  | nil => exact ⟨_, .sign h⟩
  | cons d ds =>
    rcases isSign_iff.1 h with rfl | rfl
    · exact ⟨_, .plus (List.cons_ne_nil d ds) hd⟩
    · exact ⟨_, .minus (List.cons_ne_nil d ds) hd⟩

theorem exists_denotes_of_split? {text : List Char} (h : split? text = some (lexeme, rest)) :
    ∃ longer token, Denotes lexeme longer token ∧ EndsRun longer rest := by
  cases text with
  | nil => cases h
  | cons c text =>
    rw [split?] at h
    split at h
    · next hp =>
      cases h
      obtain ⟨p, hp⟩ := Option.isSome_iff_exists.1 hp
      rw [Punctuation.ofChar?_eq_some_iff.1 hp]
      exact ⟨_, _, .punctuation p, fun _ _ ↦ rfl⟩
    · split at h
      · next hc =>
        cases h
        have hd : ∀ d ∈ text.takeWhile Char.isDigit, d.isDigit = true := fun _ ↦ of_mem_takeWhile
        rcases Bool.or_eq_true_iff.1 hc with hc | hc
        · have hall : ∀ d ∈ c :: text.takeWhile Char.isDigit, d.isDigit = true :=
            List.forall_mem_cons.2 ⟨hc, hd⟩
          exact ⟨_, _, .digits (List.cons_ne_nil _ _) hall, endsRun_dropWhile text⟩
        · obtain ⟨token, ht⟩ := exists_denotes_of_isSign hc hd
          exact ⟨_, token, ht, endsRun_dropWhile text⟩
      · split at h
        · next hc =>
          cases h
          exact ⟨_, _, .symbol hc fun _ ↦ of_mem_takeWhile, endsRun_dropWhile text⟩
        · cases h

theorem split?_eq_some_iff {text : List Char} :
    split? text = some (lexeme, rest) ↔
      lexeme ++ rest = text ∧
        ∃ longer, Denotes lexeme longer (.ofLexeme lexeme) ∧ EndsRun longer rest := by
  constructor
  · intro h
    obtain ⟨longer, token, hd, hr⟩ := exists_denotes_of_split? h
    exact ⟨append_of_split?_eq_some h, longer, by rwa [ofLexeme_eq hd], hr⟩
  · intro h
    obtain ⟨rfl, longer, hd, hr⟩ := h
    exact split?_append hd hr

theorem starts_iff :
    Starts c ↔ (Punctuation.ofChar? c).isSome = true ∨ c.isDigit = true ∨ isSign c = true ∨
      isSymbolStart c = true := by
  constructor
  · intro h
    obtain ⟨cs, longer, token, h⟩ := h
    cases h with
    | punctuation p => simp [ofChar?_char]
    | digits hne hd => exact .inr (.inl (hd c (by simp)))
    | plus hne hd | minus hne hd => exact .inr (.inr (.inl rfl))
    | symbol hc hi => exact .inr (.inr (.inr hc))
    | sign hc => exact .inr (.inr (.inl hc))
  · intro h
    rcases h with hp | hd | hs | hc
    · obtain ⟨p, hp⟩ := Option.isSome_iff_exists.1 hp
      rw [Punctuation.ofChar?_eq_some_iff.1 hp]
      exact ⟨_, _, _, .punctuation p⟩
    · exact ⟨[], _, _, .digits (List.cons_ne_nil c []) (by simpa using hd)⟩
    · exact ⟨[], _, _, .sign hs⟩
    · exact ⟨[], _, _, .symbol hc (by simp)⟩

theorem split?_eq_none_iff {text : List Char} : split? (c :: text) = none ↔ ¬ Starts c := by
  rw [starts_iff, split?]
  cases Punctuation.ofChar? c <;> cases c.isDigit <;> cases isSign c <;> cases isSymbolStart c <;>
    simp

theorem isBlank_of_starts (h : Starts c) : isBlank c = false := by
  have hb : 33 ≤ c.toNat ∧ c.toNat ≤ 122 := by
    rcases starts_iff.1 h with hp | hd | hs | hc
    · obtain ⟨p, hp⟩ := Option.isSome_iff_exists.1 hp
      rw [Punctuation.ofChar?_eq_some_iff.1 hp]
      cases p <;> decide
    · have := toNat_of_isDigit hd
      omega
    · rcases isSign_iff.1 hs with rfl | rfl <;> decide
    · exact toNat_of_isSymbolStart hc
  cases hc : isBlank c with
  | false => rfl
  | true =>
    have := toNat_of_isBlank hc
    omega

theorem Denotes.ne_nil (h : Denotes lexeme longer token) : lexeme ≠ [] := by
  cases h <;> simp_all

theorem Denotes.exists_cons (h : Denotes lexeme longer token) :
    ∃ c cs, lexeme = c :: cs ∧ isBlank c = false := by
  obtain ⟨c, cs, rfl⟩ := List.exists_cons_of_ne_nil h.ne_nil
  exact ⟨c, cs, rfl, isBlank_of_starts ⟨cs, longer, token, h⟩⟩

theorem decimal_repr (k : Nat) : decimal k.repr.toList = k := by
  rw [decimal, Nat.toList_repr, Nat.ofDigitChars_ten_toDigits]

theorem repr_ne_nil (k : Nat) : k.repr.toList ≠ [] := by simp

theorem isDigit_of_mem_repr {k : Nat} (h : c ∈ k.repr.toList) : c.isDigit = true := by
  rw [Nat.toList_repr] at h
  exact Nat.isDigit_of_mem_toDigits (by decide) (Nat.le_refl 10) h

/-- The written form of a number is a lexeme of its own, with no plus sign. -/
theorem denotes_integer (n : Int64) :
    Denotes (toString n.toInt).toList Char.isDigit (.constant n) := by
  rw [Int.toString_eq_repr, Int.repr_eq_if]
  split
  · next h =>
    have hd := Denotes.digits (repr_ne_nil n.toInt.toNat) fun _ ↦ isDigit_of_mem_repr
    rwa [decimal_repr, Int.toNat_of_nonneg h, Int64.ofInt_toInt] at hd
  · next h =>
    have hd := Denotes.minus (repr_ne_nil (-n.toInt).toNat) fun _ ↦ isDigit_of_mem_repr
    rw [decimal_repr, Int.toNat_of_nonneg (by omega), Int.neg_neg, Int64.ofInt_toInt] at hd
    rwa [String.toList_append]

theorem isSymbolInner_of_isDigit (h : c.isDigit = true) : isSymbolInner c = true := by
  simp [isSymbolInner, h]

theorem toNat_of_isSymbolInner (h : isSymbolInner c = true) : 33 ≤ c.toNat ∧ c.toNat ≤ 122 := by
  simp only [isSymbolInner, Bool.or_eq_true, beq_iff_eq] at h
  rcases h with (((hs | hd) | rfl) | rfl) | rfl
  · exact toNat_of_isSymbolStart hs
  · have := toNat_of_isDigit hd
    omega
  all_goals decide

theorem isSymbolInner_of_isBlank (h : isBlank c = true) : isSymbolInner c = false := by
  cases hc : isSymbolInner c with
  | false => rfl
  | true =>
    have := toNat_of_isBlank h
    have := toNat_of_isSymbolInner hc
    omega

theorem endsRun_of_allBlank {blanks : List Char} (hb : AllBlank blanks) :
    EndsRun isSymbolInner blanks :=
  fun c hc ↦ isSymbolInner_of_isBlank (hb c (List.mem_of_mem_head? hc))

/-- What ends a symbol ends every lexeme. -/
theorem Denotes.endsRun (h : Denotes lexeme longer token) (hr : EndsRun isSymbolInner rest) :
    EndsRun longer rest := by
  apply hr.mono
  intro c hc
  cases h with
  | punctuation => cases hc
  | symbol => exact hc
  | digits | plus | minus | sign => exact isSymbolInner_of_isDigit hc

end Lexeme

end MiniScheme
