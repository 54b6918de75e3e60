import Hierarchy.Proofs.Text.Trimming
import Hierarchy.Text.Integer

/-!
# Integers in decimal digits

What is read as an integer is a numeral, with a sign or without one (`readInt?_isSome_iff`).  The
digits of a natural number leave nothing to trim (`trim_toDigits`) and are read back, unless the
number is too great for the integers of 64 bits (`readInt64?_toDigits`, `readInt64?_toString`).

As texts, numerals of one length are ordered like the numbers (`toDigits_lt_toDigits`).  Of two
lengths, the first digits decide (`append_lt_of_lt`).
-/

namespace Hierarchy.Text

variable {cs ds : List Char} {m n : Nat}

/-! ## Reading -/

/-- At least one decimal digit, and nothing else. -/
def IsNumeral (cs : List Char) : Prop := cs ≠ [] ∧ ∀ c ∈ cs, c.isDigit

/-- A sign, which may be missing, and what satisfies `P`. -/
inductive Signed (P : List Char → Prop) : List Char → Prop where
  | plain {cs : List Char} (h : P cs) : Signed P cs
  | plus {cs : List Char} (h : P cs) : Signed P ('+' :: cs)
  | minus {cs : List Char} (h : P cs) : Signed P ('-' :: cs)

/-- What holds behind each sign, and of what has none, holds of all with or without a sign, if `P`
holds of nothing that starts with a sign. -/
theorem signed_iff {P Q : List Char → Prop} (hsign : ∀ c ∈ ['-', '+'], ∀ cs, ¬P (c :: cs))
    (hminus : ∀ cs, Q ('-' :: cs) ↔ P cs) (hplus : ∀ cs, Q ('+' :: cs) ↔ P cs)
    (hplain : ∀ cs, (∀ c ∈ cs.head?, c ≠ '-' ∧ c ≠ '+') → (Q cs ↔ P cs)) :
    Q cs ↔ Signed P cs := by
  constructor
  · intro h
    cases cs with
    | nil => exact .plain ((hplain [] nofun).1 h)
    | cons c cs =>
      by_cases hc : c = '-'
      · subst hc
        exact .minus ((hminus cs).1 h)
      · by_cases hc' : c = '+'
        · subst hc'
          exact .plus ((hplus cs).1 h)
        · exact .plain ((hplain (c :: cs) (by simp [hc, hc'])).1 h)
  · rintro (h | h | h)
    · refine (hplain cs fun c hc => ?_).2 h
      obtain ⟨cs, rfl⟩ := List.head?_eq_some_iff.1 hc
      exact ⟨fun hc => hsign c (by simp [hc]) cs h, fun hc => hsign c (by simp [hc]) cs h⟩
    · exact (hplus _).2 h
    · exact (hminus _).2 h

theorem digitValue?_eq (c : Char) :
    digitValue? c = if c.isDigit then some (c.toNat - '0'.toNat) else none :=
  if_congr Char.isDigit_iff_toNat.symm rfl rfl

theorem readDigitsFrom_of_isDigit (h : ∀ c ∈ cs, c.isDigit) (n : Nat) :
    readDigitsFrom n cs = some (Nat.ofDigitChars 10 cs n) := by
  induction cs generalizing n with
  | nil => rfl
  | cons c cs ih =>
    obtain ⟨hc, hcs⟩ := List.forall_mem_cons.1 h
    rw [readDigitsFrom, digitValue?_eq, if_pos hc, Option.bind_some, ih hcs, Nat.ofDigitChars_cons]

theorem isDigit_of_readDigitsFrom (h : (readDigitsFrom n cs).isSome) : ∀ c ∈ cs, c.isDigit := by
  induction cs generalizing n with
  | nil => nofun
  | cons c cs ih =>
    rw [readDigitsFrom, digitValue?_eq] at h
    split at h
    · next hc => exact List.forall_mem_cons.2 ⟨hc, ih h⟩
    · cases h

theorem readNat?_of_isNumeral (h : IsNumeral cs) :
    readNat? cs = some (Nat.ofDigitChars 10 cs 0) := by
  unfold readNat?
  split
  · exact absurd rfl h.1
  · exact readDigitsFrom_of_isDigit h.2 0

theorem readNat?_isSome_iff : (readNat? cs).isSome ↔ IsNumeral cs := by
  constructor
  · intro h
    unfold readNat? at h
    split at h
    · cases h
    · next hne => exact ⟨hne, isDigit_of_readDigitsFrom h⟩
  · intro h
    rw [readNat?_of_isNumeral h]
    rfl

theorem readInt?_minus (cs : List Char) :
    readInt? ('-' :: cs) = (readNat? cs).map fun n : Nat => -(n : Int) := by
  rw [readInt?]
  cases readNat? cs <;> rfl

theorem readInt?_plus (cs : List Char) :
    readInt? ('+' :: cs) = (readNat? cs).map fun n : Nat => (n : Int) := by
  rw [readInt?]
  cases readNat? cs <;> rfl

theorem readInt?_plain (h : ∀ c ∈ cs.head?, c ≠ '-' ∧ c ≠ '+') :
    readInt? cs = (readNat? cs).map fun n : Nat => (n : Int) := by
  unfold readInt?
  split
  · exact absurd rfl (h '-' rfl).1
  · exact absurd rfl (h '+' rfl).2
  · cases readNat? cs <;> rfl

theorem IsNumeral.head (h : IsNumeral cs) : ∀ c ∈ cs.head?, c ≠ '-' ∧ c ≠ '+' := by
  intro c hc
  have hdigit := h.2 c (List.mem_of_mem_head? hc)
  constructor <;>
  · rintro rfl
    exact absurd hdigit (by decide)

/-- What is read as an integer is a numeral with a sign or without one. -/
theorem readInt?_isSome_iff : (readInt? cs).isSome ↔ Signed IsNumeral cs := by
  refine signed_iff (Q := fun cs => (readInt? cs).isSome) (fun c hc cs h => ?_) (fun cs => ?_)
    (fun cs => ?_) fun cs hcs => ?_
  · have hhead := h.head c rfl
    simp [hhead.1, hhead.2] at hc
  · rw [readInt?_minus, Option.isSome_map, readNat?_isSome_iff]
  · rw [readInt?_plus, Option.isSome_map, readNat?_isSome_iff]
  · rw [readInt?_plain hcs, Option.isSome_map, readNat?_isSome_iff]

/-- A word ends where a character follows that cannot belong to it. -/
theorem takeWhile_word {p : Char → Bool} {word rest : List Char} (hword : ∀ c ∈ word, p c = true)
    (hrest : ∀ c ∈ rest.head?, p c = false) :
    (word ++ rest).takeWhile p = word ∧ (word ++ rest).dropWhile p = rest := by
  rw [List.takeWhile_append_of_pos hword, List.dropWhile_append_of_pos hword]
  cases rest with
  | nil => simp
  | cons c rest => simp [hrest c rfl]

/-! ## Numbers written anew -/

theorem toList_toString (n : Nat) : (toString n).toList = Nat.toDigits 10 n := by
  rw [Nat.toString_eq_ofList_toDigits, String.toList_ofList]

theorem isDigit_of_mem (n : Nat) : ∀ c ∈ Nat.toDigits 10 n, c.isDigit :=
  fun _ hc => Nat.isDigit_of_mem_toDigits (by decide) (by decide) hc

theorem isNumeral_toDigits (n : Nat) : IsNumeral (Nat.toDigits 10 n) :=
  ⟨Nat.toDigits_ne_nil, isDigit_of_mem n⟩

theorem readNat?_toDigits (n : Nat) : readNat? (Nat.toDigits 10 n) = some n := by
  rw [readNat?_of_isNumeral (isNumeral_toDigits n), Nat.ofDigitChars_ten_toDigits]

theorem readInt64?_toDigits (n : Nat) :
    readInt64? (Nat.toDigits 10 n) = if n < int64Limit then some (n : Int) else none := by
  unfold readInt64?
  rw [readInt?_plain (isNumeral_toDigits n).head, readNat?_toDigits, Option.map_some,
    Option.filter_some]
  refine if_congr ?_ rfl rfl
  rw [Bool.and_eq_true, decide_eq_true_eq, decide_eq_true_eq]
  omega

/-- An integer of 64 bits is read back from its text. -/
theorem readInt64?_toString {n : Int} (hlow : -int64Limit ≤ n) (hhigh : n < int64Limit) :
    readInt64? (toString n).toList = some n := by
  have hread : readInt? (toString n).toList = some n := by
    cases n with
    | ofNat n =>
      change readInt? (toString n).toList = _
      rw [toList_toString, readInt?_plain (isNumeral_toDigits n).head, readNat?_toDigits]
      rfl
    | negSucc n =>
      have htext : (toString (Int.negSucc n)).toList = '-' :: Nat.toDigits 10 (n + 1) := by
        change ("-" ++ toString (n + 1)).toList = _
        rw [String.toList_append, toList_toString]
        rfl
      rw [htext, readInt?_minus, readNat?_toDigits]
      rfl
  unfold readInt64?
  rw [hread, Option.filter_some, if_pos (by simp [hlow, hhigh])]

theorem isBlank_of_isDigit {c : Char} (h : c.isDigit) : isBlank c = false := by
  obtain ⟨hlow, hhigh⟩ := Char.isDigit_iff_toNat.1 h
  change 48 ≤ c.toNat at hlow
  change c.toNat ≤ 57 at hhigh
  simp only [isBlank, Bool.or_eq_false_iff, Bool.and_eq_false_iff, decide_eq_false_iff_not,
    beq_eq_false_iff_ne]
  omega

theorem trim_toDigits (n : Nat) : trim (Nat.toDigits 10 n) = Nat.toDigits 10 n :=
  trim_eq_self_iff.2
    ⟨fun c hc => isBlank_of_isDigit (isDigit_of_mem n c (List.mem_of_mem_head? hc)),
      fun c hc => isBlank_of_isDigit (isDigit_of_mem n c (List.mem_of_mem_getLast? hc))⟩

/-! ## Order -/

/-- After a lesser number, whatever digits follow come to less. -/
theorem ofDigitChars_lt (h : m < n) (hcs : ∀ c ∈ cs, c.isDigit) (hlength : cs.length = ds.length) :
    Nat.ofDigitChars 10 cs m < Nat.ofDigitChars 10 ds n := by
  induction cs generalizing ds m n with
  | nil =>
    rw [List.length_eq_zero_iff.1 hlength.symm]
    exact h
  | cons c cs ih =>
    cases ds with
    | nil => cases hlength
    | cons d ds =>
      obtain ⟨hc, hcs⟩ := List.forall_mem_cons.1 hcs
      have hle : c.toNat ≤ 57 := (Char.isDigit_iff_toNat.1 hc).2
      rw [Nat.ofDigitChars_cons, Nat.ofDigitChars_cons]
      refine ih ?_ hcs (Nat.add_right_cancel hlength)
      change 10 * m + (c.toNat - 48) < 10 * n + (d.toNat - 48)
      omega

/-- Numerals of one length are ordered like the numbers. -/
theorem lt_of_ofDigitChars_lt (hcs : ∀ c ∈ cs, c.isDigit) (hds : ∀ d ∈ ds, d.isDigit)
    (hlength : cs.length = ds.length)
    (h : Nat.ofDigitChars 10 cs n < Nat.ofDigitChars 10 ds n) : cs < ds := by
  induction cs generalizing ds n with
  | nil =>
    rw [List.length_eq_zero_iff.1 hlength.symm] at h
    exact absurd h (Nat.lt_irrefl _)
  | cons c cs ih =>
    cases ds with
    | nil => cases hlength
    | cons d ds =>
      have hlength' := Nat.add_right_cancel hlength
      obtain ⟨hc, hcs'⟩ := List.forall_mem_cons.1 hcs
      obtain ⟨hd, hds'⟩ := List.forall_mem_cons.1 hds
      rw [Nat.ofDigitChars_cons, Nat.ofDigitChars_cons] at h
      rw [List.cons_lt_cons_iff]
      rcases Nat.lt_trichotomy c.toNat d.toNat with hlt | heq | hgt
      · exact .inl hlt
      · obtain rfl := Char.toNat_inj.1 heq
        exact .inr ⟨rfl, ih hcs' hds' hlength' h⟩
      · have hlow : 48 ≤ d.toNat := (Char.isDigit_iff_toNat.1 hd).1
        have hfirst : 10 * n + (d.toNat - 48) < 10 * n + (c.toNat - 48) := by omega
        exact absurd h (Nat.lt_asymm (ofDigitChars_lt hfirst hds' hlength'.symm))

theorem toDigits_lt_toDigits (hlength : (Nat.toDigits 10 m).length = (Nat.toDigits 10 n).length)
    (h : m < n) : Nat.toDigits 10 m < Nat.toDigits 10 n := by
  refine lt_of_ofDigitChars_lt (n := 0) (isDigit_of_mem m) (isDigit_of_mem n) hlength ?_
  rwa [Nat.ofDigitChars_ten_toDigits, Nat.ofDigitChars_ten_toDigits]

theorem append_lt_of_lt (hlength : cs.length = ds.length) (h : cs < ds) (rest : List Char) :
    cs ++ rest < ds := by
  induction cs generalizing ds with
  | nil =>
    rw [List.length_eq_zero_iff.1 hlength.symm] at h
    exact absurd h (List.lt_irrefl _)
  | cons c cs ih =>
    cases ds with
    | nil => cases hlength
    | cons d ds =>
      rw [List.length_cons, List.length_cons, Nat.add_right_cancel_iff] at hlength
      rw [List.cons_append, List.cons_lt_cons_iff]
      exact (List.cons_lt_cons_iff.1 h).imp_right fun ⟨heq, hlt⟩ => ⟨heq, ih hlength hlt⟩

end Hierarchy.Text
