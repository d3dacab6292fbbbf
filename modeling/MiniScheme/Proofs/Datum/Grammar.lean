import MiniScheme.Datum.Basic
import MiniScheme.Token.Basic

namespace MiniScheme

mutual

/-- The grammar of the language: the tokens that write down a datum. -/
inductive Derives : List Token → Datum → Prop
  | symbol (name : String) : Derives [.symbol name] (.symbol name)
  | constant (n : Int64) : Derives [.constant n] (.integer n)
  | quoted {ts : List Token} {d : Datum} (h : Derives ts d) :
      Derives (.punctuation .quote :: ts) d.quoted
  | list {ts : List Token} {ds : List Datum} (h : DerivesAll ts ds) :
      Derives (.punctuation .openBracket :: (ts ++ [.punctuation .closeBracket])) (.ofList ds .nil)
  | dotted {ts us : List Token} {ds : List Datum} {d : Datum} (h : DerivesAll ts ds)
      (hne : ds ≠ []) (ht : Derives us d) :
      Derives (.punctuation .openBracket ::
        (ts ++ .punctuation .dot :: (us ++ [.punctuation .closeBracket]))) (.ofList ds d)

inductive DerivesAll : List Token → List Datum → Prop
  | nil : DerivesAll [] []
  | cons {ts us : List Token} {d : Datum} {ds : List Datum} (h : Derives ts d)
      (hs : DerivesAll us ds) : DerivesAll (ts ++ us) (d :: ds)

end

/-- A token that can come after the data of a list. -/
def Token.EndsData (token : Token) : Prop :=
  token = .punctuation .closeBracket ∨ token = .punctuation .dot

theorem Derives.exists_cons {ts : List Token} {d : Datum} (h : Derives ts d) :
    ∃ token us, ts = token :: us ∧ ¬ token.EndsData := by
  cases h <;> exact ⟨_, _, rfl, by simp [Token.EndsData]⟩

mutual

/-- The tokens of a datum end where they do whatever comes after them. -/
theorem Derives.unique {ts ts' us us' : List Token} {d d' : Datum} (h : Derives ts d)
    (h' : Derives ts' d') (he : ts ++ us = ts' ++ us') : d = d' ∧ us = us' := by
  match h with
  | .symbol name | .constant n =>
    cases h' <;> simp at he
    simp [he]
  | .quoted h =>
    cases h' <;> simp at he
    next h' =>
      obtain ⟨rfl, rfl⟩ := h.unique h' he
      exact ⟨rfl, rfl⟩
  | .list h =>
    cases h' <;> simp at he
    next h' =>
      obtain ⟨rfl, -, rfl⟩ := h.unique h' (.inl rfl) (.inl rfl) he
      exact ⟨rfl, rfl⟩
    next h' hne' ht' =>
      obtain ⟨-, hd, -⟩ := h.unique h' (.inl rfl) (.inr rfl) he
      cases hd
  | .dotted h hne ht =>
    cases h' <;> simp at he
    next h' =>
      obtain ⟨-, hd, -⟩ := h.unique h' (.inr rfl) (.inl rfl) he
      cases hd
    next h' hne' ht' =>
      obtain ⟨rfl, -, he⟩ := h.unique h' (.inr rfl) (.inr rfl) he
      obtain ⟨rfl, he⟩ := ht.unique ht' he
      exact ⟨rfl, (List.cons.inj he).2⟩

theorem DerivesAll.unique {ts ts' us us' : List Token} {t t' : Token} {ds ds' : List Datum}
    (h : DerivesAll ts ds) (h' : DerivesAll ts' ds') (ht : t.EndsData) (ht' : t'.EndsData)
    (he : ts ++ t :: us = ts' ++ t' :: us') : ds = ds' ∧ t = t' ∧ us = us' := by
  match h with
  | .nil =>
    cases h' with
    | nil => simpa using he
    | cons h' hs' =>
      obtain ⟨token, vs, rfl, hn⟩ := h'.exists_cons
      cases he
      exact absurd ht hn
  | .cons h hs =>
    cases h' with
    | nil =>
      obtain ⟨token, vs, rfl, hn⟩ := h.exists_cons
      cases he
      exact absurd ht' hn
    | cons h' hs' =>
      rw [List.append_assoc, List.append_assoc] at he
      obtain ⟨rfl, he⟩ := h.unique h' he
      obtain ⟨rfl, rfl, rfl⟩ := hs.unique hs' ht ht' he
      exact ⟨rfl, rfl, rfl⟩

end

theorem Derives.functional {ts : List Token} {d d' : Datum} (h : Derives ts d)
    (h' : Derives ts d') : d = d' :=
  (h.unique h' (congrArg (· ++ []) rfl)).1

/-- What comes after an opening bracket, up to the bracket that closes the list. -/
inductive DerivesChain (atStart : Bool) : List Token → Datum → Prop
  | close {ts : List Token} {ds : List Datum} (h : DerivesAll ts ds) :
      DerivesChain atStart (ts ++ [.punctuation .closeBracket]) (.ofList ds .nil)
  | dotted {ts us : List Token} {ds : List Datum} {d : Datum} (h : DerivesAll ts ds)
      (hne : atStart = true → ds ≠ []) (ht : Derives us d) :
      DerivesChain atStart (ts ++ .punctuation .dot :: (us ++ [.punctuation .closeBracket]))
        (.ofList ds d)

theorem DerivesChain.derives {ts : List Token} {d : Datum} (h : DerivesChain true ts d) :
    Derives (.punctuation .openBracket :: ts) d := by
  cases h with
  | close h => exact .list h
  | dotted h hne ht => exact .dotted h (hne rfl) ht

theorem DerivesChain.cons {atStart : Bool} {ts us : List Token} {d e : Datum} (h : Derives ts d)
    (hs : DerivesChain false us e) : DerivesChain atStart (ts ++ us) (.cons d e) := by
  cases hs with
  | close hs =>
    rw [← List.append_assoc]
    exact .close (.cons h hs)
  | dotted hs hne ht =>
    rw [← List.append_assoc]
    exact .dotted (.cons h hs) (fun _ ↦ List.cons_ne_nil _ _) ht

end MiniScheme
