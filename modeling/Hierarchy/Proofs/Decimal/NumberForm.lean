import Hierarchy.Decimal.Notation
import Hierarchy.Proofs.Text.Numerals

/-!
# The form of floating point numbers

A text is read as a floating point number exactly if it has the form of one (`read?_isSome_iff`):
behind a sign, which may be missing, digits with or without a point and an exponent
(`DecimalForm`), or one of the words for infinity and for what is no number (`IsNumberWord`).  The
form of an integer is one of these (`numberForm_of_integer`).
-/

namespace Hierarchy.Decimal

open Text (IsNumeral Signed)

/-- Nothing, or a power of ten. -/
inductive ExponentForm : List Char → Prop where
  | missing : ExponentForm []
  | power {e : Char} {exponent : List Char} (he : e = 'e' ∨ e = 'E')
      (h : Signed IsNumeral exponent) : ExponentForm (e :: exponent)

/-- Digits with or without a point among or around them, and an exponent. -/
inductive DecimalForm : List Char → Prop where
  | whole {digits exponent : List Char} (hdigits : IsNumeral digits)
      (hexponent : ExponentForm exponent) : DecimalForm (digits ++ exponent)
  | point {whole fraction exponent : List Char} (hdigits : IsNumeral (whole ++ fraction))
      (hexponent : ExponentForm exponent) : DecimalForm (whole ++ '.' :: (fraction ++ exponent))

/-- Words in any mix of capitals and small letters. -/
def IsNumberWord (cs : List Char) : Prop :=
  String.ofList (cs.map Char.toLower) ∈ ["inf", "infinity", "nan"]

/-- The form of a floating point number. -/
def NumberForm (cs : List Char) : Prop := Signed (fun cs => DecimalForm cs ∨ IsNumberWord cs) cs

variable {cs rest digits : List Char}

theorem isDigit_eq : isDigit = Char.isDigit := by
  funext c
  unfold isDigit
  rw [Text.digitValue?_eq]
  cases c.isDigit <;> rfl

theorem readExponent?_isSome_iff : (readExponent? cs).isSome ↔ ExponentForm cs := by
  cases cs with
  | nil => exact iff_of_true rfl .missing
  | cons e exponent =>
    rw [readExponent?]
    by_cases he : e = 'e' ∨ e = 'E'
    · rw [if_pos he, Text.readInt?_isSome_iff]
      exact ⟨.power he, fun | .power _ h => h⟩
    · rw [if_neg he]
      exact iff_of_false nofun fun | .power he' _ => he he'

/-- Neither a digit nor a point starts an exponent. -/
theorem ExponentForm.head (h : ExponentForm cs) : ∀ c ∈ cs.head?, c.isDigit = false ∧ c ≠ '.' := by
  cases h with
  | missing => nofun
  | power he =>
    rintro c ⟨⟩
    rcases he with rfl | rfl <;> decide

/-! ## Digits with or without a point -/

/-- The digits before a point, those behind it, and the rest. -/
def digitParts (cs : List Char) : List Char × List Char × List Char :=
  (cs.takeWhile Char.isDigit, match cs.dropWhile Char.isDigit with
    | '.' :: rest => (rest.takeWhile Char.isDigit, rest.dropWhile Char.isDigit)
    | rest => ([], rest))

theorem readUnsigned?_isSome {whole fraction rest : List Char}
    (h : digitParts cs = (whole, fraction, rest)) :
    (readUnsigned? cs).isSome ↔ whole ++ fraction ≠ [] ∧ ExponentForm rest := by
  have hread : readUnsigned? cs = if whole.isEmpty ∧ fraction.isEmpty then none else
      (readExponent? rest).bind fun exponent =>
        some (whole ++ fraction, exponent - fraction.length) := by
    unfold readUnsigned?
    rw [isDigit_eq]
    change (if (digitParts cs).1.isEmpty ∧ (digitParts cs).2.1.isEmpty then none else
      (readExponent? (digitParts cs).2.2).bind fun exponent =>
        some ((digitParts cs).1 ++ (digitParts cs).2.1,
          exponent - (digitParts cs).2.1.length)) = _
    rw [h]
  have hempty : (whole.isEmpty ∧ fraction.isEmpty) ↔ whole ++ fraction = [] := by
    rw [List.isEmpty_iff, List.isEmpty_iff, List.append_eq_nil_iff]
  rw [hread, ← readExponent?_isSome_iff]
  split
  · next hnil => exact iff_of_false nofun fun h => h.1 (hempty.1 hnil)
  · next hne =>
    rw [and_iff_right (mt hempty.2 hne)]
    cases readExponent? rest <;> simp

theorem digitParts_whole {whole rest : List Char} (hwhole : ∀ c ∈ whole, c.isDigit)
    (hrest : ∀ c ∈ rest.head?, c.isDigit = false ∧ c ≠ '.') :
    digitParts (whole ++ rest) = (whole, [], rest) := by
  obtain ⟨htake, hdrop⟩ := Text.takeWhile_word hwhole fun c hc => (hrest c hc).1
  unfold digitParts
  rw [htake, hdrop]
  split
  · exact absurd rfl (hrest '.' rfl).2
  · rfl

theorem digitParts_point {whole fraction rest : List Char} (hwhole : ∀ c ∈ whole, c.isDigit)
    (hfraction : ∀ c ∈ fraction, c.isDigit) (hrest : ∀ c ∈ rest.head?, c.isDigit = false) :
    digitParts (whole ++ '.' :: (fraction ++ rest)) = (whole, fraction, rest) := by
  have hpoint : ∀ c ∈ ('.' :: (fraction ++ rest)).head?, c.isDigit = false := by
    rintro c ⟨⟩
    rfl
  obtain ⟨htake, hdrop⟩ := Text.takeWhile_word hwhole hpoint
  obtain ⟨htake', hdrop'⟩ := Text.takeWhile_word hfraction hrest
  unfold digitParts
  rw [htake, hdrop]
  change (whole, (fraction ++ rest).takeWhile Char.isDigit,
    (fraction ++ rest).dropWhile Char.isDigit) = _
  rw [htake', hdrop']

/-- Every text starts with digits, which end at a point or elsewhere. -/
theorem digitParts_cases (cs : List Char) :
    (∃ whole rest, cs = whole ++ rest ∧ (∀ c ∈ whole, c.isDigit) ∧
      ∀ c ∈ rest.head?, c.isDigit = false ∧ c ≠ '.') ∨
    ∃ whole fraction rest, cs = whole ++ '.' :: (fraction ++ rest) ∧ (∀ c ∈ whole, c.isDigit) ∧
      (∀ c ∈ fraction, c.isDigit) ∧ ∀ c ∈ rest.head?, c.isDigit = false := by
  have hdigit {cs : List Char} : ∀ c ∈ cs.takeWhile Char.isDigit, c.isDigit :=
    fun c => List.mem_takeWhile_imp
  have hhead (cs : List Char) : ∀ c ∈ (cs.dropWhile Char.isDigit).head?, c.isDigit = false := by
    intro c hc
    have hnot := List.head?_dropWhile_not Char.isDigit cs
    rwa [Option.mem_def.1 hc] at hnot
  by_cases hpoint : (cs.dropWhile Char.isDigit).head? = some '.'
  · obtain ⟨rest, hrest⟩ := List.head?_eq_some_iff.1 hpoint
    refine .inr ⟨cs.takeWhile Char.isDigit, rest.takeWhile Char.isDigit,
      rest.dropWhile Char.isDigit, ?_, hdigit, hdigit, hhead rest⟩
    rw [List.takeWhile_append_dropWhile, ← hrest, List.takeWhile_append_dropWhile]
  · refine .inl ⟨cs.takeWhile Char.isDigit, cs.dropWhile Char.isDigit,
      List.takeWhile_append_dropWhile.symm, hdigit, fun c hc => ⟨hhead cs c hc, ?_⟩⟩
    rintro rfl
    exact hpoint hc

theorem readUnsigned?_isSome_iff : (readUnsigned? cs).isSome ↔ DecimalForm cs := by
  constructor
  · intro h
    rcases digitParts_cases cs with ⟨whole, rest, rfl, hwhole, hrest⟩ |
      ⟨whole, fraction, rest, rfl, hwhole, hfraction, hrest⟩
    · obtain ⟨hne, hexponent⟩ := (readUnsigned?_isSome (digitParts_whole hwhole hrest)).1 h
      rw [List.append_nil] at hne
      exact .whole ⟨hne, hwhole⟩ hexponent
    · obtain ⟨hne, hexponent⟩ :=
        (readUnsigned?_isSome (digitParts_point hwhole hfraction hrest)).1 h
      exact .point ⟨hne, List.forall_mem_append.2 ⟨hwhole, hfraction⟩⟩ hexponent
  · rintro (⟨⟨hne, hdigits⟩, hexponent⟩ | ⟨⟨hne, hdigits⟩, hexponent⟩)
    · refine (readUnsigned?_isSome (digitParts_whole hdigits hexponent.head)).2 ⟨?_, hexponent⟩
      rwa [List.append_nil]
    · obtain ⟨hwhole, hfraction⟩ := List.forall_mem_append.1 hdigits
      have hrest := fun c hc => (hexponent.head c hc).1
      exact (readUnsigned?_isSome (digitParts_point hwhole hfraction hrest)).2 ⟨hne, hexponent⟩

/-! ## Signs and words -/

theorem readWord?_isSome_iff (negative : Bool) :
    (readWord? negative cs).isSome ↔ IsNumberWord cs := by
  unfold readWord? IsNumberWord
  dsimp only
  split
  · next hword => exact iff_of_true rfl (by rcases hword with hword | hword <;> simp [hword])
  · next hword =>
    rw [not_or] at hword
    split
    · next hnan => exact iff_of_true rfl (by simp [hnan])
    · next hnan => exact iff_of_false nofun (by simp [hword.1, hword.2, hnan])

/-- Reads what stands behind the sign. -/
def readMagnitude? (negative : Bool) (cs : List Char) : Option Binary64 :=
  match readUnsigned? cs with
  | some (digits, k) => some (toBinary64 negative digits k)
  | none => readWord? negative cs

theorem readMagnitude?_isSome_iff (negative : Bool) :
    (readMagnitude? negative cs).isSome ↔ DecimalForm cs ∨ IsNumberWord cs := by
  unfold readMagnitude?
  rw [← readUnsigned?_isSome_iff, ← readWord?_isSome_iff negative]
  cases readUnsigned? cs <;> simp

theorem DecimalForm.head (h : DecimalForm cs) :
    ∃ c rest, cs = c :: rest ∧ (c.isDigit ∨ c = '.') := by
  rcases h with ⟨⟨hne, hdigits⟩, -⟩ | @⟨whole, _, _, ⟨-, hdigits⟩, -⟩
  · obtain ⟨c, digits, rfl⟩ := List.exists_cons_of_ne_nil hne
    exact ⟨c, _, rfl, .inl (hdigits c List.mem_cons_self)⟩
  · cases whole with
    | nil => exact ⟨'.', _, rfl, .inr rfl⟩
    | cons c whole => exact ⟨c, _, rfl, .inl (hdigits c List.mem_cons_self)⟩

theorem eq_or_eq_of_toLower {c small capital : Char} (hletter : capital.val + 32 = small.val)
    (h : c.toLower = small) : c = small ∨ c = capital := by
  unfold Char.toLower at h
  split at h
  · have hval : c.val + 32 = small.val := congrArg Char.val h
    exact .inr (Char.ext (by grind))
  · exact .inl h

theorem IsNumberWord.head (h : IsNumberWord cs) :
    ∃ c rest, cs = c :: rest ∧ (c = 'i' ∨ c = 'I' ∨ c = 'n' ∨ c = 'N') := by
  simp only [IsNumberWord, List.mem_cons, List.not_mem_nil, or_false, ← String.toList_inj,
    String.toList_ofList] at h
  cases cs with
  | nil => rcases h with h | h | h <;> cases h
  | cons c rest =>
    have hc : c.toLower = 'i' ∨ c.toLower = 'n' := by
      rcases h with h | h | h
      · exact .inl (List.cons.inj h).1
      · exact .inl (List.cons.inj h).1
      · exact .inr (List.cons.inj h).1
    refine ⟨c, rest, rfl, ?_⟩
    rcases hc with hc | hc
    · exact or_assoc.1 (.inl (eq_or_eq_of_toLower (by decide) hc))
    · exact .inr (.inr (eq_or_eq_of_toLower (by decide) hc))

theorem not_magnitude_of_sign {c : Char} (hc : c ∈ ['-', '+']) :
    ¬(DecimalForm (c :: cs) ∨ IsNumberWord (c :: cs)) := by
  rintro (h | h)
  all_goals
    obtain ⟨c', rest, heq, hc'⟩ := h.head
    obtain ⟨rfl, -⟩ := List.cons.inj heq
    revert hc'
    rcases List.mem_pair.1 hc with rfl | rfl <;> decide

theorem read?_plain (h : ∀ c ∈ cs.head?, c ≠ '-' ∧ c ≠ '+') :
    read? cs = readMagnitude? false cs := by
  unfold read?
  split
  next negative rest hsign =>
  split at hsign
  · exact absurd rfl (h '-' rfl).1
  · exact absurd rfl (h '+' rfl).2
  · obtain ⟨rfl, rfl⟩ := Prod.mk.inj hsign
    rfl

/-- What is read as a floating point number has the form of one. -/
theorem read?_isSome_iff : (read? cs).isSome ↔ NumberForm cs := by
  refine Text.signed_iff (Q := fun cs => (read? cs).isSome)
    (fun c hc cs => not_magnitude_of_sign hc) (fun cs => ?_) (fun cs => ?_) fun cs hcs => ?_
  · exact readMagnitude?_isSome_iff true
  · exact readMagnitude?_isSome_iff false
  · rw [read?_plain hcs, readMagnitude?_isSome_iff]

instance (cs : List Char) : Decidable (NumberForm cs) :=
  decidable_of_iff ((read? cs).isSome = true) read?_isSome_iff

example : NumberForm "-.5E+3".toList ∧ NumberForm "+Infinity".toList ∧ ¬NumberForm "1e".toList := by
  decide +kernel

/-- A number starts with a character before the letters, or with the letter of a word. -/
theorem NumberForm.head (h : NumberForm cs) :
    ∃ c rest, cs = c :: rest ∧ (c.toNat < 65 ∨ c = 'i' ∨ c = 'I' ∨ c = 'n' ∨ c = 'N') := by
  cases h with
  | plus h => exact ⟨'+', _, rfl, .inl (by decide)⟩
  | minus h => exact ⟨'-', _, rfl, .inl (by decide)⟩
  | plain h =>
    rcases h with h | h
    · obtain ⟨c, rest, rfl, hc | rfl⟩ := h.head
      · have hle : c.toNat ≤ 57 := (Char.isDigit_iff_toNat.1 hc).2
        exact ⟨c, rest, rfl, .inl (by omega)⟩
      · exact ⟨'.', rest, rfl, .inl (by decide)⟩
    · obtain ⟨c, rest, rfl, hc⟩ := h.head
      exact ⟨c, rest, rfl, .inr hc⟩

theorem numberForm_of_integer (h : Signed IsNumeral cs) : NumberForm cs := by
  have hwhole {digits : List Char} (hdigits : IsNumeral digits) :
      DecimalForm digits ∨ IsNumberWord digits := by
    have hform := DecimalForm.whole hdigits .missing
    rw [List.append_nil] at hform
    exact .inl hform
  cases h with
  | plain h => exact .plain (hwhole h)
  | plus h => exact .plus (hwhole h)
  | minus h => exact .minus (hwhole h)

end Hierarchy.Decimal
