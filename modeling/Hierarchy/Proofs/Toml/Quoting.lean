import Hierarchy.Toml.TextReader
import Mathlib.Tactic.IntervalCases

/-!
# Quoted texts read back

`unquote` undoes `quote`: whatever a text holds, the form that `quote` takes for it is read as that
text, up to the closing quotes (`unquote_quote`).

Two forms fit every text.  In the basic ones each character is written in some way that stands for
it alone (`Spelling`).  The literal ones fit the texts that `textForm` picks for them: no character
in them needs an escape, and no three single quotes stand in a row.  Blocks may hold quotes as they
are, so a reader has to tell these from the closing ones (`ReadsQuotes`).
-/

namespace Hierarchy.Toml

/-! ## Characters -/

theorem ne_of_class {p : Char → Bool} {c d : Char} (hc : p c = true) (hd : p d = false) :
    c ≠ d := by
  rintro rfl
  rw [hc] at hd
  cases hd

/-- A text that stands for a character between double quotes. -/
inductive Spelling (x : Char) : List Char → Prop where
  | letter {c : Char} : simpleEscape? c = some x → Spelling x ['\\', c]
  | code {a b c d : Char} : scalar? [a, b, c, d] = some x → Spelling x ['\\', 'u', a, b, c, d]
  | plain : x ≠ '"' → x ≠ '\\' → isForbidden x = false → Spelling x [x]

/-- Four digits are enough for the characters that are always escaped. -/
theorem scalar?_hexDigits4 {x : Char} (h : needsEscape x = true) :
    scalar? (hexDigits4 x.toNat) = some x := by
  have all : ∀ n < 128, scalar? (hexDigits4 n) = some (Char.ofNat n) := by decide +kernel
  have hlt : x.toNat < 128 := by
    simp only [needsEscape, Bool.or_eq_true, Bool.and_eq_true, decide_eq_true_eq, beq_iff_eq] at h
    omega
  rw [all _ hlt, Char.ofNat_toNat]

theorem isForbidden_eq_false {x : Char} (hescape : needsEscape x = false) (hline : x ≠ '\n') :
    isForbidden x = false := by
  unfold needsEscape at hescape
  unfold isForbidden
  simp only [Bool.or_eq_false_iff, Bool.and_eq_false_iff, bne_eq_false_iff_eq] at hescape ⊢
  exact ⟨hescape.1.resolve_right hline, hescape.2⟩

theorem ne_of_isForbidden {x c : Char} (hx : isForbidden x = false) (hc : isForbidden c = true) :
    x ≠ c := (ne_of_class hc hx).symm

theorem spelling_escapeChar (x : Char) : Spelling x (escapeChar x) := by
  unfold escapeChar
  split
  case h_8 hquote hbackslash hline _ _ _ _ =>
    split
    next hescape => exact .code (scalar?_hexDigits4 hescape)
    next hescape =>
      exact .plain hquote hbackslash (isForbidden_eq_false (by simpa using hescape) hline)
  all_goals exact .letter rfl

namespace Spelling

variable {x : Char} {w : List Char}

/-- A double quote is never written as it is, and no line end is. -/
theorem head (h : Spelling x w) (rest : List Char) :
    ∃ c, (w ++ rest).head? = some c ∧ c ≠ '"' ∧ c ≠ '\n' ∧ c ≠ '\r' := by
  cases h with
  | letter _ => exact ⟨'\\', rfl, by decide, by decide, by decide⟩
  | code _ => exact ⟨'\\', rfl, by decide, by decide, by decide⟩
  | plain hquote _ hforbidden =>
    exact ⟨x, rfl, hquote, ne_of_isForbidden hforbidden rfl, ne_of_isForbidden hforbidden rfl⟩

theorem readBasic_eq (h : Spelling x w) (rest : List Char) :
    readBasic (w ++ rest) = (readBasic rest).cons x := by
  cases h with
  | @letter c hc =>
    unfold simpleEscape? at hc
    split at hc <;> cases hc <;> rfl
  | code hcode =>
    simp [readBasic, hcode]
  | plain _ hbackslash hforbidden =>
    simp [readBasic, hbackslash, hforbidden]

theorem readBlockBasic_eq (h : Spelling x w) (rest : List Char) :
    readBlockBasic false (w ++ rest) = (readBlockBasic false rest).cons x := by
  cases h with
  | @letter c hc =>
    unfold simpleEscape? at hc
    split at hc <;> cases hc <;> rfl
  | code hcode =>
    simp [readBlockBasic, hcode]
  | plain hquote hbackslash hforbidden =>
    have hline : x ≠ '\n' := ne_of_isForbidden hforbidden rfl
    have hreturn : x ≠ '\r' := ne_of_isForbidden hforbidden rfl
    simp [readBlockBasic, hquote, hbackslash, hforbidden, hline, hreturn]

end Spelling

/-! ## Quotes within blocks -/

/-- Puts a text before a text that was read. -/
def Reading.append (cs : List Char) (r : Reading) : Reading := cs.foldr Reading.cons r

@[simp] theorem Reading.append_nil (r : Reading) : r.append [] = r := rfl

@[simp] theorem Reading.append_cons (c : Char) (cs : List Char) (r : Reading) :
    r.append (c :: cs) = (r.append cs).cons c := rfl

@[simp] theorem Reading.cons_some (c : Char) (text rest : List Char) :
    Reading.cons c (some (text, rest)) = some (c :: text, rest) := rfl

@[simp] theorem Reading.append_some (cs text rest : List Char) :
    Reading.append cs (some (text, rest)) = some (cs ++ text, rest) := by
  induction cs with
  | nil => rfl
  | cons c cs ih => rw [append_cons, ih, cons_some, List.cons_append]

/-- A reader of blocks keeps a quote that is not the first of three, and takes the last three of up
to five quotes for the closing ones. -/
structure ReadsQuotes (q : Char) (read : List Char → Reading) : Prop where
  keep (cs : List Char) : ¬ [q, q] <+: cs → read (q :: cs) = (read cs).cons q
  close (n : Nat) (rest : List Char) : n ≤ 2 → rest.head? ≠ some q →
    read (List.replicate n q ++ (q :: q :: q :: rest)) = some (List.replicate n q, rest)

theorem readBlockBasic_readsQuotes : ReadsQuotes '"' (readBlockBasic false) where
  keep cs h := by
    rw [readBlockBasic]
    · rfl
    all_goals grind
  close n rest hn hrest := by
    cases rest with
    | nil => interval_cases n <;> rfl
    | cons c rest =>
      have hc : c ≠ '"' := by simpa using hrest
      interval_cases n <;> simp [readBlockBasic, hc]

theorem readBlockLiteral_readsQuotes : ReadsQuotes '\'' readBlockLiteral where
  keep cs h := by
    rw [readBlockLiteral]
    · rfl
    all_goals grind
  close n rest hn hrest := by
    cases rest with
    | nil => interval_cases n <;> rfl
    | cons c rest =>
      have hc : c ≠ '\'' := by simpa using hrest
      interval_cases n <;> simp [readBlockLiteral, hc]

/-- Two quotes in a row are kept as well. -/
theorem ReadsQuotes.keep_replicate {q : Char} {read : List Char → Reading} (h : ReadsQuotes q read)
    {n : Nat} (hn : n ≤ 2) {cs : List Char} (hcs : cs.head? ≠ some q) :
    read (List.replicate n q ++ cs) = (read cs).append (List.replicate n q) := by
  have hone : ¬ [q, q] <+: cs := by
    rintro ⟨rest, rfl⟩
    exact hcs rfl
  have htwo : ¬ [q, q] <+: q :: cs := by
    rintro ⟨rest, hrest⟩
    rw [← (List.cons.inj hrest).2] at hcs
    exact hcs rfl
  interval_cases n
  · rfl
  · exact h.keep cs hone
  · exact (h.keep (q :: cs) htwo).trans (congrArg _ (h.keep cs hone))

/-- Quotes, then a character written in some way, then text that is read. -/
theorem ReadsQuotes.keep_then {q c : Char} {read : List Char → Reading} (h : ReadsQuotes q read)
    {n : Nat} (hn : n ≤ 2) {w tail text rest : List Char} (hhead : (w ++ tail).head? ≠ some q)
    (hw : read (w ++ tail) = (read tail).cons c) (htail : read tail = some (text, rest)) :
    read (List.replicate n q ++ (w ++ tail)) = some (List.replicate n q ++ c :: text, rest) := by
  rw [h.keep_replicate hn hhead, hw, htail, Reading.cons_some, Reading.append_some]

/-! ## The inside of texts -/

variable {cs rest : List Char}

theorem readBasic_flatMap (cs rest : List Char) :
    readBasic (cs.flatMap escapeChar ++ '"' :: rest) = some (cs, rest) := by
  induction cs with
  | nil => rfl
  | cons c cs ih =>
    rw [List.flatMap_cons, List.append_assoc, (spelling_escapeChar c).readBasic_eq, ih,
      Reading.cons_some]

theorem readLiteral_append (hquote : '\'' ∉ cs) (hcs : ∀ c ∈ cs, isForbidden c = false) :
    readLiteral (cs ++ '\'' :: rest) = some (cs, rest) := by
  induction cs with
  | nil => rfl
  | cons c cs ih =>
    have hne : c ≠ '\'' := fun h => hquote (by simp [h])
    have ih := ih (fun h => hquote (by simp [h])) fun d hd => hcs d (by simp [hd])
    rw [List.cons_append, readLiteral]
    · rw [hcs c (by simp), ih]
      rfl
    · simpa using hne

/-- What `blockBody` writes behind `quotes` double quotes is read together with them. -/
theorem readBlockBasic_blockBody (hrest : rest.head? ≠ some '"') {quotes : Nat}
    (hquotes : quotes ≤ 2) (cs : List Char) :
    readBlockBasic false (List.replicate quotes '"' ++ (blockBody quotes cs ++
      '"' :: '"' :: '"' :: rest)) = some (List.replicate quotes '"' ++ cs, rest) := by
  have reads := readBlockBasic_readsQuotes
  induction cs generalizing quotes with
  | nil =>
    rw [List.append_nil]
    exact reads.close quotes rest hquotes hrest
  | cons c cs ih =>
    have htail : readBlockBasic false (blockBody 0 cs ++ '"' :: '"' :: '"' :: rest) =
        some (cs, rest) := ih (Nat.zero_le 2)
    -- no spelling starts with a quote, so the quotes before it are not the closing ones
    have hescaped : readBlockBasic false (List.replicate quotes '"' ++ ((escapeChar c ++
        blockBody 0 cs) ++ '"' :: '"' :: '"' :: rest)) =
        some (List.replicate quotes '"' ++ c :: cs, rest) := by
      have hspelling := spelling_escapeChar c
      obtain ⟨d, hhead, hd, -⟩ := hspelling.head (blockBody 0 cs ++ '"' :: '"' :: '"' :: rest)
      rw [List.append_assoc]
      exact reads.keep_then hquotes (by rw [hhead]; simpa using hd)
        (hspelling.readBlockBasic_eq _) htail
    unfold blockBody
    split
    next hquote =>
      subst hquote
      split
      next hlt =>
        have := ih (Nat.succ_le_of_lt hlt)
        rwa [List.replicate_succ', List.append_assoc, List.append_assoc] at this
      next => exact hescaped
    next =>
      split
      next hline =>
        subst hline
        exact reads.keep_then (w := ['\n']) hquotes (by simp) rfl htail
      next => exact hescaped

/-- A text without three single quotes in a row, where `quotes` of them stand before it. -/
theorem readBlockLiteral_append (hrest : rest.head? ≠ some '\'') {quotes : Nat}
    (hcs : ∀ c ∈ cs, needsEscape c = false) (hrun : longestRun '\'' quotes cs ≤ 2) :
    readBlockLiteral (List.replicate quotes '\'' ++ (cs ++ '\'' :: '\'' :: '\'' :: rest)) =
      some (List.replicate quotes '\'' ++ cs, rest) := by
  have reads := readBlockLiteral_readsQuotes
  induction cs generalizing quotes with
  | nil =>
    rw [List.append_nil]
    exact reads.close quotes rest hrun hrest
  | cons c cs ih =>
    have ih {n : Nat} := @ih n fun d hd => hcs d (by simp [hd])
    unfold longestRun at hrun
    split at hrun
    next hquote =>
      subst hquote
      have := ih hrun
      rwa [List.replicate_succ', List.append_assoc, List.append_assoc] at this
    next hquote =>
      have htail : readBlockLiteral (cs ++ '\'' :: '\'' :: '\'' :: rest) = some (cs, rest) :=
        ih (le_trans (le_max_right _ _) hrun)
      refine reads.keep_then (w := [c]) (le_trans (le_max_left _ _) hrun)
        (by simpa using hquote) ?_ htail
      by_cases hline : c = '\n'
      · subst hline
        rfl
      have hforbidden := isForbidden_eq_false (hcs c (by simp)) hline
      have hreturn : c ≠ '\r' := ne_of_isForbidden hforbidden rfl
      simp [readBlockLiteral, hquote, hline, hforbidden, hreturn]

/-! ## The texts that a form is taken for -/

theorem le_longestRun (c : Char) (run : Nat) (cs : List Char) : run ≤ longestRun c run cs := by
  induction cs generalizing run with
  | nil => exact Nat.le_refl run
  | cons d cs ih =>
    unfold longestRun
    split
    · exact le_trans (Nat.le_succ run) (ih (run + 1))
    · exact le_max_left _ _

theorem not_mem_of_longestRun_eq_zero {c : Char} {run : Nat} (h : longestRun c run cs = 0) :
    c ∉ cs := by
  induction cs generalizing run with
  | nil => exact List.not_mem_nil
  | cons d cs ih =>
    unfold longestRun at h
    split at h
    next =>
      have := le_longestRun c (run + 1) cs
      omega
    next hne =>
      rw [List.mem_cons, not_or]
      exact ⟨Ne.symm hne, ih (Nat.max_eq_zero_iff.1 h).2⟩

theorem of_textForm_literal (h : textForm cs = .literal) :
    '\'' ∉ cs ∧ ∀ c ∈ cs, isForbidden c = false := by
  simp only [textForm] at h
  split_ifs at h with _ hform
  simp only [Bool.and_eq_true, Bool.not_eq_true', beq_iff_eq, List.any_eq_false] at hform
  obtain ⟨⟨hescapes, hsingle⟩, hlines⟩ := hform
  refine ⟨not_mem_of_longestRun_eq_zero hsingle, fun c hc => ?_⟩
  refine isForbidden_eq_false (Bool.eq_false_iff.2 (hescapes c hc)) ?_
  rintro rfl
  simp [hc] at hlines

theorem of_textForm_blockLiteral (h : textForm cs = .blockLiteral) :
    (∀ c ∈ cs, needsEscape c = false) ∧ longestRun '\'' 0 cs ≤ 2 := by
  simp only [textForm] at h
  split_ifs at h with _ _ _ hform
  simp only [Bool.and_eq_true, Bool.not_eq_true', decide_eq_true_eq, List.any_eq_false] at hform
  exact ⟨fun c hc => Bool.eq_false_iff.2 (hform.1 c hc), hform.2⟩

/-! ## The start of texts -/

/-- A block without a line end in it does not start with one either, so the reader drops none. -/
theorem dropLineEnd_blockStart {body : List Char}
    (h : '\n' ∉ cs → body.head? ≠ some '\n' ∧ body.head? ≠ some '\r') :
    dropLineEnd (blockStart cs ++ body) = body := by
  unfold blockStart
  split
  next => rfl
  next hline =>
    obtain ⟨hnewline, hreturn⟩ := h (by simpa using hline)
    rw [List.nil_append]
    unfold dropLineEnd
    split
    · exact absurd rfl hnewline
    · exact absurd rfl hreturn
    · rfl

theorem head_blockBody (h : '\n' ∉ cs) (rest : List Char) :
    (blockBody 0 cs ++ '"' :: rest).head? ≠ some '\n' ∧
      (blockBody 0 cs ++ '"' :: rest).head? ≠ some '\r' := by
  cases cs with
  | nil => exact ⟨by simp [blockBody], by simp [blockBody]⟩
  | cons c cs =>
    obtain ⟨d, hhead, -, hnewline, hreturn⟩ :=
      (spelling_escapeChar c).head (blockBody 0 cs ++ '"' :: rest)
    have hc : c ≠ '\n' := by
      rintro rfl
      simp at h
    unfold blockBody
    split_ifs with hquote hlt
    · subst hquote
      simp
    · contradiction
    · rw [List.append_assoc, hhead]
      simpa using ⟨hnewline, hreturn⟩

theorem head_blockLiteral (hcs : ∀ c ∈ cs, needsEscape c = false) (h : '\n' ∉ cs)
    (rest : List Char) :
    (cs ++ '\'' :: rest).head? ≠ some '\n' ∧ (cs ++ '\'' :: rest).head? ≠ some '\r' := by
  cases cs with
  | nil => simp
  | cons c cs =>
    have hnewline : c ≠ '\n' := fun hc => h (by simp [hc])
    have hreturn : c ≠ '\r' := (ne_of_class (p := needsEscape) rfl (hcs c (by simp))).symm
    simpa using ⟨hnewline, hreturn⟩

/-- Two quotes do not start a text on one line. -/
theorem unquote_basic {body : List Char} (h : ¬ ['"', '"'] <+: body) :
    unquote ('"' :: body) = readBasic body := by
  unfold unquote
  split
  next rest heq =>
    rw [(List.cons.inj heq).2] at h
    exact absurd ⟨rest, rfl⟩ h
  next heq => cases heq
  next => rfl

theorem unquote_literal {body : List Char} (h : ¬ ['\'', '\''] <+: body) :
    unquote ('\'' :: body) = readLiteral body := by
  unfold unquote
  split
  next heq => cases heq
  next rest heq =>
    rw [(List.cons.inj heq).2] at h
    exact absurd ⟨rest, rfl⟩ h
  next => rfl

/-- Only the empty text has its quotes next to each other, and no third quote follows them. -/
theorem not_two_quotes {q : Char} {body : List Char} (hrest : rest.head? ≠ some q)
    (h : body.head? ≠ some q) : ¬ [q, q] <+: body ++ q :: rest := by
  rintro ⟨tail, htail⟩
  cases body with
  | nil =>
    rw [← (List.cons.inj htail).2] at hrest
    exact hrest rfl
  | cons c body =>
    rw [(List.cons.inj htail).1] at h
    exact h rfl

/-! ## All texts -/

/-- No quote follows. -/
structure NoQuote (rest : List Char) : Prop where
  double : rest.head? ≠ some '"'
  single : rest.head? ≠ some '\''

/-- Every text is read back. -/
theorem unquote_quote (cs : List Char) (hrest : NoQuote rest) :
    unquote (quote cs ++ rest) = some (cs, rest) := by
  unfold quote
  cases hform : textForm cs with
  | basic =>
    have hhead : (cs.flatMap escapeChar).head? ≠ some '"' := by
      cases cs with
      | nil => simp
      | cons c cs =>
        obtain ⟨d, hhead, hd, -⟩ := (spelling_escapeChar c).head (cs.flatMap escapeChar)
        rw [List.flatMap_cons, hhead]
        simpa using hd
    have hinside := not_two_quotes hrest.double hhead
    simpa using (unquote_basic hinside).trans (readBasic_flatMap cs rest)
  | literal =>
    obtain ⟨hquote, hforbidden⟩ := of_textForm_literal hform
    have hhead : cs.head? ≠ some '\'' := fun h => hquote (List.mem_of_mem_head? h)
    have hinside := not_two_quotes hrest.single hhead
    simpa using (unquote_literal hinside).trans (readLiteral_append hquote hforbidden)
  | blockBasic =>
    have hstart := dropLineEnd_blockStart fun hline : '\n' ∉ cs =>
      head_blockBody hline ('"' :: '"' :: rest)
    have hread := readBlockBasic_blockBody hrest.double (Nat.zero_le 2) cs
    simpa [unquote, hstart] using hread
  | blockLiteral =>
    obtain ⟨hcs, hrun⟩ := of_textForm_blockLiteral hform
    have hstart := dropLineEnd_blockStart fun hline : '\n' ∉ cs =>
      head_blockLiteral hcs hline ('\'' :: '\'' :: rest)
    have hread := readBlockLiteral_append hrest.single hcs hrun
    simpa [unquote, hstart] using hread

end Hierarchy.Toml
