import Hierarchy.Proofs.Text.Numerals
import Hierarchy.Proofs.Toml.Quoting
import Hierarchy.Toml.Document
import Hierarchy.Toml.Writer
import Mathlib.Data.List.Basic
import Mathlib.Data.List.TakeWhile

/-!
# Written values read back

Truth values, numbers within 64 bits, texts and lists of texts are read as what they were written
for, with any values around them: `readScalar_truth`, `readScalar_toDigits`, `readValue_quote`,
`readValue_textList`.  A number is its digits in base ten, and these are no date, no word and no
number of another base.
-/

namespace Hierarchy.Toml

/-! ## Numbers -/

theorem digits?_eq_self {cs : List Char} (hne : cs ≠ []) (h : ∀ c ∈ cs, isDigit c = true) :
    digits? isDigit cs = some cs := by
  induction cs with
  | nil => contradiction
  | cons c cs ih =>
    have hc : isDigit c = true := h c (by simp)
    cases cs with
    | nil => simp [digits?, hc]
    | cons d cs =>
      have hd : d ≠ '_' := ne_of_class (h d (by simp)) rfl
      simp [digits?, hc, hd, ih (by simp) fun e he => h e (by simp [he])]

theorem isDigit_of_mem_toDigits {n : Nat} : ∀ c ∈ Nat.toDigits 10 n, isDigit c = true :=
  fun _ hc => Nat.isDigit_of_mem_toDigits (b := 10) (by decide) (by decide) hc

theorem valueIn_toDigits (n : Nat) : valueIn 10 (Nat.toDigits 10 n) = n := by
  have hfold : valueIn 10 (Nat.toDigits 10 n) = Nat.ofDigitChars 10 (Nat.toDigits 10 n) 0 := by
    unfold valueIn
    rw [Nat.ofDigitChars_eq_foldl]
    refine List.foldl_ext _ _ _ fun m c hc => ?_
    rw [isDigit_of_mem_toDigits c hc]
    rfl
  rw [hfold, Nat.ofDigitChars_ten_toDigits]

/-- Only zero is written with a zero in front. -/
theorem head_toDigits {n : Nat} (h : 0 < n) : (Nat.toDigits 10 n).head? ≠ some '0' := by
  induction n using Nat.strongRecOn with
  | ind n ih =>
    by_cases hlt : n < 10
    · rw [Nat.toDigits_of_lt_base hlt]
      interval_cases n <;> decide
    · have hge : 10 ≤ n := Nat.le_of_not_lt hlt
      rw [Nat.toDigits_of_base_le (by decide) hge,
        List.head?_append_of_ne_nil _ Nat.toDigits_ne_nil]
      exact ih (n / 10) (Nat.div_lt_self h (by decide)) (Nat.div_pos hge (by decide))

theorem decimal?_toDigits (n : Nat) : decimal? (Nat.toDigits 10 n) = some (Nat.toDigits 10 n) := by
  unfold decimal?
  rw [digits?_eq_self Nat.toDigits_ne_nil isDigit_of_mem_toDigits]
  rcases Nat.eq_zero_or_pos n with rfl | hpos
  · rfl
  · have hhead := head_toDigits hpos
    cases hdigits : Nat.toDigits 10 n with
    | nil => exact absurd hdigits Nat.toDigits_ne_nil
    | cons c cs =>
      have hc : c ≠ '0' := by simpa [hdigits] using hhead
      simp [hc]

theorem integer?_toDigits {n : Nat} (h : n < Text.int64Limit) :
    integer? (Nat.toDigits 10 n) = some (n : Int) := by
  have hdigit := isDigit_of_mem_toDigits (n := n)
  unfold integer?
  dsimp only
  split
  next heq => exact absurd (hdigit 'x' (by simp [heq])) (by decide)
  next heq => exact absurd (hdigit 'o' (by simp [heq])) (by decide)
  next heq => exact absurd (hdigit 'b' (by simp [heq])) (by decide)
  next heq => exact absurd (hdigit '-' (by simp [heq])) (by decide)
  next heq => exact absurd (hdigit '+' (by simp [heq])) (by decide)
  next =>
    rw [decimal?_toDigits, Option.map_some, valueIn_toDigits]
    exact Option.filter_eq_some_iff.2 ⟨rfl, by simp; omega⟩

/-! ## Words -/

/-- What is read up to a character that belongs to no scalar. -/
theorem readScalar_word {word rest : List Char} (hword : ∀ c ∈ word, isScalarChar c = true)
    (hrest : ∀ c ∈ rest.head?, isScalarChar c = false) (hdate : date? word ≠ some []) :
    readScalar (word ++ rest) = (scalarValue? word).map fun value => (value, rest) := by
  obtain ⟨htake, hdrop⟩ := Text.takeWhile_word hword hrest
  unfold readScalar
  simp only [htake, hdrop]
  split
  next hdate' => exact absurd hdate' hdate
  next => rfl

theorem date?_eq_none {cs : List Char} (h : '-' ∉ cs) : date? cs = none := by
  unfold date?
  cases hfield : field? 4 0 9999 cs with
  | none => rfl
  | some found =>
    obtain ⟨year, rest⟩ := found
    have hrest : rest = cs.drop 4 := by
      unfold field? at hfield
      dsimp only at hfield
      split_ifs at hfield
      exact (Prod.mk.inj (Option.some.inj hfield)).2.symm
    have hexpect : expect? '-' rest = none := by
      cases rest with
      | nil => rfl
      | cons c rest =>
        refine if_neg ?_
        rintro rfl
        exact h (List.mem_of_mem_drop (hrest ▸ List.mem_cons_self))
    rw [Option.bind_eq_bind, Option.bind_some]
    dsimp only
    rw [hexpect]
    rfl

theorem isScalarChar_of_isDigit {c : Char} (h : isDigit c = true) : isScalarChar c = true := by
  have : c.isDigit = true := h
  simp [isScalarChar, Char.isAlphanum, this]

variable {rest : List Char}

theorem readScalar_toDigits {n : Nat} (h : n < Text.int64Limit)
    (hrest : ∀ c ∈ rest.head?, isScalarChar c = false) :
    readScalar (Nat.toDigits 10 n ++ rest) = some (.integer n, rest) := by
  have hdigit := isDigit_of_mem_toDigits (n := n)
  have hnot {c : Char} (hc : isDigit c = false) : c ∉ Nat.toDigits 10 n :=
    fun hmem => ne_of_class (hdigit c hmem) hc rfl
  have hvalue : scalarValue? (Nat.toDigits 10 n) = some (.integer n) := by
    have htrue : (Nat.toDigits 10 n == "true".toList) = false := beq_eq_false_iff_ne.2 fun h =>
      hnot (c := 't') rfl (by rw [h]; decide)
    have hfalse : (Nat.toDigits 10 n == "false".toList) = false := beq_eq_false_iff_ne.2 fun h =>
      hnot (c := 'f') rfl (by rw [h]; decide)
    unfold scalarValue?
    rw [htrue, hfalse, integer?_toDigits h]
    rfl
  have hdate : date? (Nat.toDigits 10 n) ≠ some [] := by
    rw [date?_eq_none (hnot rfl)]
    nofun
  rw [readScalar_word (fun c hc => isScalarChar_of_isDigit (hdigit c hc)) hrest hdate, hvalue]
  rfl

theorem readScalar_truth (b : Bool) (hrest : ∀ c ∈ rest.head?, isScalarChar c = false) :
    readScalar ((truth b).toList ++ rest) = some (.truth b, rest) := by
  have hword : ∀ c ∈ (truth b).toList, isScalarChar c = true :=
    List.all_eq_true.1 (by cases b <;> rfl)
  have hdate : date? (truth b).toList ≠ some [] := by
    cases b
    · exact nofun
    · exact nofun
  rw [readScalar_word hword hrest hdate]
  cases b <;> rfl

/-! ## Values without others in them -/

/-- Only brackets and braces open values with others in them. -/
theorem readValue_eq_readPlain (depth : Nat) {cs : List Char} (hbracket : cs.head? ≠ some '[')
    (hbrace : cs.head? ≠ some '\x7b') : readValue depth cs = readPlain cs := by
  cases depth with
  | zero => rfl
  | succ depth =>
    unfold readValue readNested
    split
    · exact absurd rfl hbracket
    · exact absurd rfl hbrace
    · rfl

theorem readValue_scalar (depth : Nat) {c : Char} {cs : List Char} {s : Scalar}
    (hc : isScalarChar c = true) (hread : readScalar (c :: cs) = some (s, rest)) :
    readValue depth (c :: cs) = some (.scalar s, rest) := by
  have hne {d : Char} (hd : isScalarChar d = false) : c ≠ d := ne_of_class hc hd
  rw [readValue_eq_readPlain depth (by simpa using hne rfl) (by simpa using hne rfl)]
  unfold readPlain
  split
  next heq => exact absurd (List.cons.inj heq).1 (hne rfl)
  next heq => exact absurd (List.cons.inj heq).1 (hne rfl)
  next => rw [hread, Option.map_some]

theorem quote_head (cs rest : List Char) :
    ∃ q body, quote cs ++ rest = q :: body ∧ (q = '"' ∨ q = '\'') := by
  unfold quote
  cases textForm cs with
  | basic => exact ⟨_, _, rfl, .inl rfl⟩
  | literal => exact ⟨_, _, rfl, .inr rfl⟩
  | blockBasic => exact ⟨_, _, rfl, .inl rfl⟩
  | blockLiteral => exact ⟨_, _, rfl, .inr rfl⟩

theorem readValue_text (depth : Nat) {q : Char} (hq : q = '"' ∨ q = '\'') (body : List Char) :
    readValue depth (q :: body) =
      (unquote (q :: body)).map fun (text, rest) => (.text text, rest) := by
  rcases hq with rfl | rfl
  · exact readValue_eq_readPlain depth (by simp) (by simp)
  · exact readValue_eq_readPlain depth (by simp) (by simp)

theorem readValue_quote (depth : Nat) (cs : List Char) (hrest : NoQuote rest) :
    readValue depth (quote cs ++ rest) = some (.text cs, rest) := by
  obtain ⟨q, body, hbody, hq⟩ := quote_head cs rest
  rw [hbody, readValue_text depth hq, ← hbody, unquote_quote cs hrest, Option.map_some]

/-! ## Lists of texts -/

/-- Nothing that is written for each of many things is empty, so there are no more things than
characters. -/
theorem length_le_flatMap {β : Type} {f : β → List Char} (hf : ∀ b, f b ≠ []) (l : List β) :
    l.length ≤ (l.flatMap f).length := by
  induction l with
  | nil => exact Nat.le_refl 0
  | cons b l ih =>
    have hb := List.length_pos_of_ne_nil (hf b)
    rw [List.flatMap_cons, List.length_append, List.length_cons]
    omega

/-- An item on its own line. -/
def itemLine (s : String) : List Char := "    ".toList ++ (quote s.toList ++ [',', '\n'])

theorem skipFiller_quote (cs rest : List Char) :
    skipFiller false (quote cs ++ rest) = quote cs ++ rest := by
  obtain ⟨q, body, hbody, hq⟩ := quote_head cs rest
  rw [hbody]
  rcases hq with rfl | rfl <;> rfl

/-- An item was read, and a comma or the closing bracket comes next. -/
theorem readItems_item (depth limit : Nat) (s : String) {cs : List Char}
    (hcs : skipFiller false cs = quote s.toList ++ rest) (hrest : NoQuote rest) :
    readItems (readValue depth) (limit + 1) cs =
      match skipFiller false rest with
      | ',' :: rest => do
        let (items, rest) ← readItems (readValue depth) limit rest
        return (.text s.toList :: items, rest)
      | ']' :: rest => return ([.text s.toList], rest)
      | _ => none := by
  obtain ⟨q, body, hbody, hq⟩ := quote_head s.toList rest
  have hread := readValue_quote depth s.toList hrest
  rw [readItems, hcs]
  rw [hbody] at hread ⊢
  split
  next heq =>
    rcases hq with rfl | rfl <;> cases heq
  next =>
    rw [hread]
    rfl

theorem readItems_lines (depth : Nat) {limit : Nat} (items : List String)
    (h : items.length < limit) :
    readItems (readValue depth) limit ('\n' :: (items.flatMap itemLine ++ ']' :: rest)) =
      some (items.map fun s => .text s.toList, rest) := by
  obtain ⟨limit, rfl⟩ : ∃ n, limit = n + 1 := ⟨limit - 1, by omega⟩
  induction items generalizing limit with
  | nil => rfl
  | cons s items ih =>
    obtain ⟨limit, rfl⟩ : ∃ n, limit = n + 1 := ⟨limit - 1, by simp at h; omega⟩
    have hskip : skipFiller false ('\n' :: ((s :: items).flatMap itemLine ++ ']' :: rest)) =
        quote s.toList ++ ',' :: '\n' :: (items.flatMap itemLine ++ ']' :: rest) := by
      rw [List.flatMap_cons, itemLine, List.append_assoc, List.append_assoc, List.append_assoc]
      exact skipFiller_quote s.toList _
    rw [readItems_item depth (limit + 1) s hskip ⟨by simp, by simp⟩]
    change (do
      let (items, rest) ← readItems (readValue depth) (limit + 1)
        ('\n' :: (items.flatMap itemLine ++ ']' :: rest))
      return (Value.text s.toList :: items, rest)) = _
    rw [ih limit (by simpa using h)]
    rfl

theorem toList_textList (s s' : String) (items : List String) :
    (textList (s :: s' :: items)).toList =
      '[' :: '\n' :: ((s :: s' :: items).flatMap itemLine ++ [']']) := by
  have hitem : (fun s => ("    " ++ quoted s ++ ",\n").toList) = itemLine := by
    funext s
    simp [itemLine, quoted]
  change ("[\n" ++ String.join ((s :: s' :: items).map fun s => "    " ++ quoted s ++ ",\n") ++
    "]").toList = _
  rw [String.toList_append, String.toList_append, String.toList_join, List.flatMap_map, hitem]
  rfl

theorem readValue_textList (depth : Nat) (items : List String) :
    readValue (depth + 1) ((textList items).toList ++ rest) =
      some (.list (items.map fun s => .text s.toList), rest) := by
  match items with
  | [] => rfl
  | [s] =>
    have hskip := skipFiller_quote s.toList (']' :: rest)
    have hlist : (textList [s]).toList ++ rest = '[' :: (quote s.toList ++ ']' :: rest) := by
      simp [textList, quoted]
    rw [hlist, readValue, readNested, readItems_item depth _ s hskip ⟨by simp, by simp⟩]
    rfl
  | s :: s' :: items =>
    have hlist : (textList (s :: s' :: items)).toList ++ rest =
        '[' :: '\n' :: ((s :: s' :: items).flatMap itemLine ++ ']' :: rest) := by
      rw [toList_textList]
      simp
    have hlength := length_le_flatMap (f := itemLine) (by simp [itemLine]) (s :: s' :: items)
    rw [hlist, readValue, readNested, readItems_lines depth]
    · rfl
    · simp only [List.length_append, List.length_cons] at hlength ⊢
      omega

end Hierarchy.Toml
