import Hierarchy.Proofs.Text.Trimming
import Hierarchy.Text.LowerCase

/-!
# Small letters

A text in small letters does not change when it is written in small letters again (`lower_lower`),
and writing it so makes no separators: the blanks, commas and hyphens of the outcome stood in the
text before, and at an end if they stand at an end now (`mem_of_mem_lower`, `trim_lower`).

All this is known of single letters.  A capital of the table becomes a letter that is no capital of
any run and no separator, which is a property of the table (`soundRuns`); the other characters stay
as they are, except İ and Σ.
-/

namespace Hierarchy.Text

/-! ## The table -/

/-- Characters between which or at whose side words stand. -/
def isSeparator (c : Char) : Bool := c == ',' || c == '-' || isBlank c

/-- The code points of the separators and of İ. -/
def keptCodes : List Nat :=
  [0x2C, 0x2D, 0x130] ++ List.range' 9 5 ++ [0x20, 0x85, 0xA0, 0x1680] ++ List.range' 0x2000 11 ++
    [0x2028, 0x2029, 0x202F, 0x205F, 0x3000]

/-- The run has no capitals from `low` to `high`, unless it has every second character there and the
others are meant. -/
def clearOf (low high : Nat) (others : Bool) (run : Nat × Nat × Nat × Nat) : Bool :=
  bif Nat.ble run.1 high then
    bif Nat.ble low run.2.1 then others && run.2.2.1 == 2 && (low + run.1) % 2 == 1 else true
  else true

/-- The small letters of the run, from `low` to `high`, are characters, neither separators nor İ,
and no capitals. -/
def isSoundRun (run : Nat × Nat × Nat × Nat) : Bool :=
  let low := run.2.2.2
  let high := low + (run.2.1 - run.1)
  (Nat.blt high 0xD800 || Nat.blt 0xDFFF low && Nat.blt high 0x110000) &&
  keptCodes.all (fun n => Nat.blt n low || Nat.blt high n) &&
  lowerRuns.all (clearOf low high (run.2.2.1 == 2 || run.1 == run.2.1))

theorem soundRuns : lowerRuns.all isSoundRun = true := by decide +kernel

theorem lowerInRun_eq_some {n m first last step image : Nat} :
    lowerInRun n (first, last, step, image) = some m ↔
      (first ≤ n ∧ n ≤ last ∧ (n - first) % step = 0) ∧ image + (n - first) = m := by
  unfold lowerInRun
  dsimp only
  split
  · next h => simp [h]
  · next h => simp [h]

/-- The small letter of a code point in the table. -/
def smallOf? (n : Nat) : Option Nat := lowerRuns.findSome? (lowerInRun n)

theorem clearOf_iff {low high first last step image : Nat} {others : Bool} :
    clearOf low high others (first, last, step, image) ↔
      high < first ∨ last < low ∨ others ∧ step = 2 ∧ (low + first) % 2 = 1 := by
  have hble (m n : Nat) : Nat.ble m n = decide (m ≤ n) := by
    rw [Bool.eq_iff_iff, Nat.ble_eq, decide_eq_true_iff]
  unfold clearOf
  rw [hble, hble, Bool.cond_decide, Bool.cond_decide]
  dsimp only
  split
  · split
    · rw [Bool.and_eq_true, Bool.and_eq_true, beq_iff_eq, beq_iff_eq, and_assoc]
      refine ⟨fun h => .inr (.inr h), ?_⟩
      rintro (h | h | h)
      · omega
      · omega
      · exact h
    · exact iff_of_true rfl (by omega)
  · exact iff_of_true rfl (by omega)

/-- A small letter in the table is a character other than the kept ones, and has no small letter
itself. -/
theorem smallOf?_spec {n m : Nat} (h : smallOf? n = some m) :
    m.isValidChar ∧ m ∉ keptCodes ∧ smallOf? m = none := by
  obtain ⟨⟨first, last, step, image⟩, hr, hrun⟩ := List.exists_of_findSome?_eq_some h
  obtain ⟨⟨hfirst, hlast, hstep⟩, rfl⟩ := lowerInRun_eq_some.1 hrun
  have hsound := List.all_eq_true.1 soundRuns _ hr
  simp only [isSoundRun, Bool.and_eq_true, Bool.or_eq_true, Nat.blt_eq, List.all_eq_true] at hsound
  obtain ⟨⟨hvalid, hkept⟩, hclear⟩ := hsound
  refine ⟨?_, fun hmem => ?_, ?_⟩
  · unfold Nat.isValidChar
    omega
  · have := hkept _ hmem
    omega
  · refine List.findSome?_eq_none_iff.2 fun r' hr' => ?_
    obtain ⟨first', last', step', image'⟩ := r'
    have hclear' := clearOf_iff.1 (hclear _ hr')
    simp only [Bool.or_eq_true, beq_iff_eq] at hclear'
    refine Option.eq_none_iff_forall_ne_some.2 fun m hm => ?_
    obtain ⟨⟨hfirst', hlast', hstep'⟩, -⟩ := lowerInRun_eq_some.1 hm
    rcases hclear' with h' | h' | ⟨hturns, rfl, hparity⟩
    · omega
    · omega
    · have heven : (n - first) % 2 = 0 := by
        rcases hturns with rfl | rfl
        · exact hstep
        · have : n - first = 0 := by omega
          rw [this]
      omega

/-! ## Single letters -/

theorem mem_keptCodes {c : Char} (h : isSeparator c ∨ c = 'İ') : c.toNat ∈ keptCodes := by
  rcases h with h | rfl
  · simp only [isSeparator, isBlank, Bool.or_eq_true, Bool.and_eq_true, beq_iff_eq,
      decide_eq_true_eq] at h
    rcases h with (rfl | rfl) | h
    · decide
    · decide
    · simp only [keptCodes, List.mem_append, List.mem_range'_1, List.mem_cons, List.not_mem_nil]
      omega
  · decide

/-- Writing small letters does not change the character. -/
def IsSmall (c : Char) : Prop := lowerChar c = [c] ∧ c ≠ 'Σ'

instance (c : Char) : Decidable (IsSmall c) :=
  inferInstanceAs (Decidable (lowerChar c = [c] ∧ c ≠ 'Σ'))

theorem isSmall_of_smallOf?_eq_none {c : Char} (hc : c ≠ 'İ') (h : smallOf? c.toNat = none) :
    IsSmall c := by
  refine ⟨?_, ?_⟩
  · unfold lowerChar
    rw [if_neg hc, ← smallOf?, h]
    rfl
  · rintro rfl
    revert h
    decide +kernel

/-- No character before A is a capital. -/
theorem isSmall_of_lt {c : Char} (h : c.toNat < 65) : IsSmall c := by
  have hruns : lowerRuns.all fun r => Nat.ble 65 r.1 := by decide +kernel
  refine isSmall_of_smallOf?_eq_none (by rintro rfl; exact absurd h (by decide)) ?_
  refine List.findSome?_eq_none_iff.2 fun ⟨first, last, step, image⟩ hr => ?_
  have hfirst := Nat.le_of_ble_eq_true (List.all_eq_true.1 hruns _ hr)
  exact if_neg (by omega)

/-- The small form of a character is made of small letters, and of no separators but the
character itself. -/
theorem lowerChar_spec {c d : Char} (h : d ∈ lowerChar c) :
    IsSmall d ∧ (isSeparator d → d = c) := by
  by_cases hc : c = 'İ'
  · subst hc
    have hd : d = 'i' ∨ d = '\u0307' := by simpa [lowerChar] using h
    rcases hd with rfl | rfl
    · exact ⟨by decide +kernel, by decide⟩
    · exact ⟨by decide +kernel, by decide⟩
  · unfold lowerChar at h
    rw [if_neg hc, List.mem_singleton, ← smallOf?] at h
    cases hsmall : smallOf? c.toNat with
    | none =>
      rw [hsmall] at h
      obtain rfl : d = c := h
      exact ⟨isSmall_of_smallOf?_eq_none hc hsmall, fun _ => rfl⟩
    | some m =>
      rw [hsmall] at h
      obtain rfl : d = Char.ofNat m := h
      obtain ⟨hvalid, hkept, hnone⟩ := smallOf?_spec hsmall
      have hcode : (Char.ofNat m).toNat = m := by
        unfold Char.ofNat
        rw [dif_pos hvalid]
        rfl
      have hnot : ¬ (isSeparator (Char.ofNat m) ∨ Char.ofNat m = 'İ') := by
        intro h
        exact hkept (hcode ▸ mem_keptCodes h)
      refine ⟨isSmall_of_smallOf?_eq_none (fun h => hnot (.inr h)) (by rwa [hcode]), fun h => ?_⟩
      exact absurd (.inl h) hnot

/-! ## Texts -/

/-- What becomes of a character between others. -/
def smallForm (before : List Char) (c : Char) (rest : List Char) : List Char :=
  if c = 'Σ' then [if meetsCased before && !meetsCased rest then 'ς' else 'σ'] else lowerChar c

variable {before cs rest : List Char} {c d : Char}

theorem lowerAfter_cons :
    lowerAfter before (c :: rest) = smallForm before c rest ++ lowerAfter (c :: before) rest := rfl

theorem smallForm_ne_nil : smallForm before c rest ≠ [] := by
  unfold smallForm lowerChar
  split
  · simp
  · split
    · simp
    · simp

theorem smallForm_spec (h : d ∈ smallForm before c rest) :
    IsSmall d ∧ (isSeparator d → d = c) := by
  unfold smallForm at h
  split at h
  · have hd : d = 'ς' ∨ d = 'σ' := by
      split at h
      · exact .inl (List.mem_singleton.1 h)
      · exact .inr (List.mem_singleton.1 h)
    rcases hd with rfl | rfl
    · exact ⟨by decide +kernel, fun h => absurd h (by decide)⟩
    · exact ⟨by decide +kernel, fun h => absurd h (by decide)⟩
  · exact lowerChar_spec h

theorem lowerAfter_eq_self (h : ∀ c ∈ cs, IsSmall c) : lowerAfter before cs = cs := by
  induction cs generalizing before with
  | nil => rfl
  | cons c cs ih =>
    obtain ⟨⟨hc, hsigma⟩, hcs⟩ := List.forall_mem_cons.1 h
    rw [lowerAfter_cons, smallForm, if_neg hsigma, hc, ih hcs]
    rfl

theorem mem_lowerAfter (h : d ∈ lowerAfter before cs) :
    IsSmall d ∧ (isSeparator d → d ∈ cs) := by
  induction cs generalizing before with
  | nil => cases h
  | cons c cs ih =>
    rw [lowerAfter_cons, List.mem_append] at h
    rcases h with h | h
    · obtain ⟨hsmall, hseparator⟩ := smallForm_spec h
      exact ⟨hsmall, fun hd => List.mem_cons.2 (.inl (hseparator hd))⟩
    · obtain ⟨hsmall, hseparator⟩ := ih h
      exact ⟨hsmall, fun hd => List.mem_cons_of_mem _ (hseparator hd)⟩

/-- A text in small letters stays as it is. -/
theorem lower_lower (cs : List Char) : lower (lower cs) = lower cs :=
  lowerAfter_eq_self fun _ hc => (mem_lowerAfter hc).1

theorem mem_of_mem_lower (h : d ∈ lower cs) (hd : isSeparator d) : d ∈ cs :=
  (mem_lowerAfter h).2 hd

theorem lowerAfter_eq_nil_iff : lowerAfter before cs = [] ↔ cs = [] := by
  cases cs with
  | nil => simp [lowerAfter]
  | cons c cs => simp [lowerAfter_cons, smallForm_ne_nil]

theorem head?_lowerAfter (h : d ∈ (lowerAfter before cs).head?) (hd : isSeparator d) :
    d ∈ cs.head? := by
  cases cs with
  | nil => cases h
  | cons c cs =>
    rw [lowerAfter_cons, List.head?_append_of_ne_nil _ smallForm_ne_nil] at h
    rw [(smallForm_spec (List.mem_of_mem_head? h)).2 hd]
    rfl

theorem getLast?_lowerAfter (h : d ∈ (lowerAfter before cs).getLast?) (hd : isSeparator d) :
    d ∈ cs.getLast? := by
  induction cs generalizing before with
  | nil => cases h
  | cons c cs ih =>
    rw [lowerAfter_cons] at h
    cases cs with
    | nil =>
      rw [lowerAfter, List.append_nil] at h
      rw [(smallForm_spec (List.mem_of_mem_getLast? h)).2 hd]
      rfl
    | cons c' cs =>
      have hne : lowerAfter (c :: before) (c' :: cs) ≠ [] := by simp [lowerAfter_eq_nil_iff]
      rw [List.getLast?_append_of_ne_nil _ hne] at h
      rw [List.getLast?_cons_cons]
      exact ih h

/-- Small letters have no blanks at the ends if the text has none there. -/
theorem trim_lower (h : trim cs = cs) : trim (lower cs) = lower cs := by
  obtain ⟨hhead, hlast⟩ := trim_eq_self_iff.1 h
  have hseparator {c : Char} (hc : isBlank c) : isSeparator c := by simp [isSeparator, hc]
  refine trim_eq_self_iff.2 ⟨fun c hc => ?_, fun c hc => ?_⟩
  · refine Bool.eq_false_iff.2 fun hblank => ?_
    exact Bool.eq_false_iff.1 (hhead c (head?_lowerAfter hc (hseparator hblank))) hblank
  · refine Bool.eq_false_iff.2 fun hblank => ?_
    exact Bool.eq_false_iff.1 (hlast c (getLast?_lowerAfter hc (hseparator hblank))) hblank

end Hierarchy.Text
