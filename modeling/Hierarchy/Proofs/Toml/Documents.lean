import Hierarchy.Proofs.Toml.Values

/-!
# Documents of lines read back

A document of one field on each line, with a bare key, is read as these fields in their order if no
key occurs twice (`readDocument_written`).  A `Line` carries that its key is bare and that its text
denotes its value, so a document is read line by line without another look at keys or values.
-/

namespace Hierarchy.Toml

/-! ## Lines -/

/-- On a line of its own behind a key, `text` stands for `value`. -/
structure Denotes (text : List Char) (value : Value) : Prop where
  start : ∀ c ∈ text.head?, isSpace c = false
  read (rest : List Char) :
    readValue (depthLimit - 1) (text ++ '\n' :: rest) = some (value, '\n' :: rest)

/-- No character of a word is a blank. -/
theorem isSpace_of_class {p : Char → Bool} {c : Char} (hc : p c = true) (hspace : p ' ' = false)
    (htab : p '\t' = false) : isSpace c = false := by
  simp [isSpace, ne_of_class hc hspace, ne_of_class hc htab]

/-- A field on a line of its own. -/
structure Line where
  key : Key
  text : List Char
  value : Value
  nonempty : key.isEmpty = false
  bare : key.all isBareKeyChar = true
  denotes : Denotes text value

namespace Line

def written (l : Line) : List Char := l.key ++ (" = ".toList ++ (l.text ++ ['\n']))

def field (l : Line) : Key × Value := (l.key, l.value)

def statement (l : Line) : Statement := .field [l.key] l.value

variable (l : Line) (rest : List Char)

theorem isBareKeyChar_of_mem : ∀ c ∈ l.key, isBareKeyChar c = true := List.all_eq_true.1 l.bare

theorem key_head : ∃ c cs, l.key = c :: cs ∧ isBareKeyChar c = true := by
  have hbare := l.isBareKeyChar_of_mem
  have hnonempty := l.nonempty
  cases hkey : l.key with
  | nil =>
    rw [hkey] at hnonempty
    cases hnonempty
  | cons c cs => exact ⟨c, cs, rfl, hbare c (by simp [hkey])⟩

theorem written_append :
    l.written ++ rest = l.key ++ ' ' :: '=' :: ' ' :: (l.text ++ '\n' :: rest) := by
  simp [written]

theorem skipSpace_key : skipSpace (l.key ++ rest) = l.key ++ rest := by
  obtain ⟨c, cs, hkey, hc⟩ := l.key_head
  rw [hkey]
  exact List.dropWhile_cons_of_neg (ne_true_of_eq_false (isSpace_of_class hc rfl rfl))

theorem readKey_eq : readKey (l.key ++ ' ' :: rest) = some (l.key, ' ' :: rest) := by
  obtain ⟨c, cs, hkey, hc⟩ := l.key_head
  have hblank : ∀ c ∈ (' ' :: rest).head?, isBareKeyChar c = false := by
    rintro _ ⟨⟩
    rfl
  obtain ⟨htake, hdrop⟩ := Text.takeWhile_word l.isBareKeyChar_of_mem hblank
  rw [hkey] at htake hdrop ⊢
  unfold readKey
  split
  next heq => exact absurd (List.cons.inj heq).1 (ne_of_class hc rfl)
  next heq => exact absurd (List.cons.inj heq).1 (ne_of_class hc rfl)
  next =>
    rw [htake, hdrop]
    rfl

theorem readDottedKey_eq :
    readDottedKey (l.key ++ ' ' :: '=' :: rest) = some ([l.key], '=' :: rest) := by
  unfold readDottedKey depthLimit
  rw [readPath, skipSpace_key, readKey_eq]
  rfl

theorem readField_eq : readField (readValue (depthLimit - 1)) (l.written ++ rest) =
    some (([l.key], l.value), '\n' :: rest) := by
  have hskip : skipSpace (' ' :: (l.text ++ '\n' :: rest)) = l.text ++ '\n' :: rest := by
    have hstart := l.denotes.start
    cases htext : l.text with
    | nil => rfl
    | cons c cs =>
      rw [htext] at hstart
      exact (List.dropWhile_cons_of_pos rfl).trans
        (List.dropWhile_cons_of_neg (ne_true_of_eq_false (hstart c rfl)))
  unfold readField
  rw [written_append, readDottedKey_eq, Option.bind_eq_bind, Option.bind_some]
  dsimp only
  rw [expect?, if_pos rfl, Option.bind_eq_bind, Option.bind_some, hskip, l.denotes.read rest]
  rfl

theorem readStatement_eq :
    readStatement (l.written ++ rest) = some (l.statement, rest) := by
  have hfield := l.readField_eq rest
  obtain ⟨c, cs, hkey, hc⟩ := l.key_head
  rw [written_append, hkey] at hfield ⊢
  unfold readStatement
  split
  next heq => exact absurd (List.cons.inj heq).1 (ne_of_class hc rfl)
  next heq => exact absurd (List.cons.inj heq).1 (ne_of_class hc rfl)
  next =>
    rw [hfield, statement, hkey]
    rfl

theorem readLines_cons (limit : Nat) :
    readLines (limit + 1) (l.written ++ rest) =
      (readLines limit rest).map (l.statement :: ·) := by
  have hstatement := l.readStatement_eq rest
  have hskip := l.skipSpace_key (' ' :: '=' :: ' ' :: (l.text ++ '\n' :: rest))
  obtain ⟨c, cs, hkey, hc⟩ := l.key_head
  rw [readLines, written_append, hskip]
  rw [written_append, hkey] at hstatement
  rw [hkey]
  split
  next heq => cases heq
  next heq => exact absurd (List.cons.inj heq).1 (ne_of_class hc rfl)
  next heq => exact absurd (List.cons.inj heq).1 (ne_of_class hc rfl)
  next heq => exact absurd (List.cons.inj heq).1 (ne_of_class hc rfl)
  next =>
    rw [hstatement]
    change (do return l.statement :: (← readLines limit rest)) = _
    cases readLines limit rest <;> rfl

end Line

/-! ## Documents -/

/-- Each line costs the reader one unit of its limit, and the end of the document one more. -/
theorem readLines_written {limit : Nat} (lines : List Line) (h : lines.length < limit) :
    readLines limit (lines.flatMap Line.written) = some (lines.map Line.statement) := by
  obtain ⟨limit, rfl⟩ : ∃ n, limit = n + 1 := ⟨limit - 1, by omega⟩
  induction lines generalizing limit with
  | nil => rfl
  | cons l lines ih =>
    obtain ⟨limit, rfl⟩ : ∃ n, limit = n + 1 := ⟨limit - 1, by simp at h; omega⟩
    rw [List.flatMap_cons, l.readLines_cons, ih limit (by simpa using h)]
    rfl

theorem Line.apply_statement {l : Line} {fields : Fields} (h : fields.lookup l.key = none) :
    l.statement.apply fields [] = some (fields ++ [l.field], []) := by
  simp [statement, field, Statement.apply, Fields.change, Fields.set, h]

/-- Fields of new keys are appended, one after the other; no table is opened. -/
theorem foldlM_apply (lines : List Line) (fields : Fields)
    (h : (fields.map Prod.fst ++ lines.map Line.key).Nodup) :
    (lines.map Line.statement).foldlM (fun (fields, opened) s => s.apply fields opened)
      (fields, []) = some (fields ++ lines.map Line.field, ([] : List Key)) := by
  induction lines generalizing fields with
  | nil => simp
  | cons l lines ih =>
    have hnew : fields.lookup l.key = none := by
      refine List.lookup_eq_none_iff.2 fun field hfield => bne_iff_ne.2 ?_
      have hapart := (List.nodup_append.1 h).2.2
      exact (hapart field.1 (List.mem_map_of_mem hfield) l.key (by simp)).symm
    have hrest : ((fields ++ [l.field]).map Prod.fst ++ lines.map Line.key).Nodup := by
      simpa [Line.field] using h
    rw [List.map_cons, List.foldlM_cons]
    dsimp only
    rw [Line.apply_statement hnew]
    exact (ih _ hrest).trans (by simp)

theorem readDocument_written (lines : List Line) (h : (lines.map Line.key).Nodup) :
    readDocument (lines.flatMap Line.written) = some (lines.map Line.field) := by
  have hmark : dropByteOrderMark (lines.flatMap Line.written) = lines.flatMap Line.written := by
    cases lines with
    | nil => rfl
    | cons l lines =>
      obtain ⟨c, cs, hkey, hc⟩ := l.key_head
      rw [List.flatMap_cons, Line.written_append, hkey]
      unfold dropByteOrderMark
      split
      next heq => exact absurd (List.cons.inj heq).1 (ne_of_class hc (by decide))
      next => rfl
  have hlength := length_le_flatMap (f := Line.written) (fun l => by simp [Line.written]) lines
  unfold readDocument
  rw [hmark]
  dsimp only
  rw [readLines_written lines (Nat.lt_succ_of_le hlength)]
  change (do
    let (fields, _) ← (lines.map Line.statement).foldlM
      (fun (fields, opened) (s : Statement) => s.apply fields opened) ([], ([] : List Key))
    return fields) = _
  rw [foldlM_apply lines [] h]
  rfl

/-! ## What stands on lines -/

theorem noQuote_newline (rest : List Char) : NoQuote ('\n' :: rest) := ⟨by simp, by simp⟩

theorem not_scalarChar_newline (rest : List Char) :
    ∀ c ∈ ('\n' :: rest).head?, isScalarChar c = false := by
  rintro _ ⟨⟩
  rfl

theorem denotes_truth (b : Bool) : Denotes (truth b).toList (.scalar (.truth b)) where
  start := by
    cases b <;>
    · rintro _ ⟨⟩
      rfl
  read rest := by
    have hread := readScalar_truth b (not_scalarChar_newline rest)
    cases b
    · exact readValue_scalar _ (by decide) hread
    · exact readValue_scalar _ (by decide) hread

theorem denotes_nat {n : Nat} (h : n < Text.int64Limit) :
    Denotes (toString n).toList (.scalar (.integer n)) := by
  have hdigit := isDigit_of_mem_toDigits (n := n)
  have hread (rest : List Char) := readScalar_toDigits h (not_scalarChar_newline rest)
  rw [Text.toList_toString]
  cases hdigits : Nat.toDigits 10 n with
  | nil => exact absurd hdigits Nat.toDigits_ne_nil
  | cons c cs =>
    rw [hdigits] at hdigit hread
    have hc : isScalarChar c = true := isScalarChar_of_isDigit (hdigit c (by simp))
    refine ⟨?_, fun rest => readValue_scalar _ hc (hread rest)⟩
    rintro _ ⟨⟩
    exact isSpace_of_class hc rfl rfl

theorem denotes_quoted (s : String) : Denotes (quoted s).toList (.text s.toList) := by
  rw [quoted, String.toList_ofList]
  refine ⟨?_, fun rest => readValue_quote _ s.toList (noQuote_newline rest)⟩
  obtain ⟨q, body, hbody, hq⟩ := quote_head s.toList []
  rw [List.append_nil] at hbody
  rw [hbody]
  rintro _ ⟨⟩
  rcases hq with rfl | rfl <;> rfl

theorem denotes_textList (items : List String) :
    Denotes (textList items).toList (.list (items.map fun s => .text s.toList)) where
  start := by
    match items with
    | [] =>
      rintro _ ⟨⟩
      rfl
    | [s] => simp [textList, isSpace]
    | s :: s' :: items =>
      rw [toList_textList]
      rintro _ ⟨⟩
      rfl
  read rest := readValue_textList _ items

end Hierarchy.Toml
