/-!
# Splitting at a character

`split sep` cuts a text at every `sep`; an empty text has one empty part.  The parts joined again
give the text (`join_split`); texts joined with `sep` have the parts of all of them
(`split_intercalate`), and lines that end with `sep` come out as they are (`split_flatMap`).
-/

namespace Hierarchy.Text

def split (sep : Char) : List Char → List (List Char)
  | [] => [[]]
  | c :: rest =>
    if c = sep then [] :: split sep rest
    else match split sep rest with
      | [] => [[c]]
      | part :: parts => (c :: part) :: parts

theorem split_ne_nil (sep : Char) (cs : List Char) : split sep cs ≠ [] := by
  cases cs with
  | nil => simp [split]
  | cons c rest =>
    rw [split]
    split
    · simp
    · split <;> simp

theorem join_split (sep : Char) (cs : List Char) : [sep].intercalate (split sep cs) = cs := by
  induction cs with
  | nil => rfl
  | cons c rest ih =>
    rw [split]
    cases hs : split sep rest with
    | nil => exact absurd hs (split_ne_nil sep rest)
    | cons part parts =>
      rw [hs] at ih
      split
      · simp_all [List.intercalate, List.intersperse]
      · cases parts <;> simp_all [List.intercalate, List.intersperse]

theorem split_append (sep : Char) (cs rest : List Char) :
    split sep (cs ++ sep :: rest) = split sep cs ++ split sep rest := by
  induction cs with
  | nil => simp [split]
  | cons c cs ih =>
    rw [List.cons_append, split, split, ih]
    split
    · rfl
    · cases hs : split sep cs with
      | nil => exact absurd hs (split_ne_nil sep cs)
      | cons part parts => rfl

theorem split_of_not_mem {sep : Char} {cs : List Char} (h : sep ∉ cs) : split sep cs = [cs] := by
  induction cs with
  | nil => rfl
  | cons c cs ih =>
    rw [List.mem_cons, not_or] at h
    rw [split, if_neg (Ne.symm h.1), ih h.2]

/-- What stands before the first `sep` is the first part. -/
theorem split_append_cons {sep : Char} {cs : List Char} (h : sep ∉ cs) (rest : List Char) :
    split sep (cs ++ sep :: rest) = cs :: split sep rest := by
  rw [split_append, split_of_not_mem h, List.singleton_append]

/-- Texts joined with `sep` have all their parts, one text after the other. -/
theorem split_intercalate (sep : Char) {texts : List (List Char)} (h : texts ≠ []) :
    split sep ([sep].intercalate texts) = texts.flatMap (split sep) := by
  induction texts with
  | nil => contradiction
  | cons cs texts ih =>
    cases texts with
    | nil => simp
    | cons cs' texts =>
      rw [List.intercalate_cons_cons, List.append_assoc, List.singleton_append, split_append,
        ih (List.cons_ne_nil _ _)]
      exact List.flatMap_cons.symm

/-- No part of a text contains `sep`. -/
theorem not_mem_of_mem_split {sep : Char} {cs part : List Char} (h : part ∈ split sep cs) :
    sep ∉ part := by
  induction cs generalizing part with
  | nil => simp_all [split]
  | cons c cs ih =>
    rw [split] at h
    split at h
    · rcases List.mem_cons.1 h with rfl | h
      · exact List.not_mem_nil
      · exact ih h
    · next hc =>
      split at h
      · rw [List.mem_singleton.1 h]
        simpa using Ne.symm hc
      · next first parts hs =>
        rw [hs] at ih
        rcases List.mem_cons.1 h with rfl | h
        · rw [List.mem_cons, not_or]
          exact ⟨Ne.symm hc, ih List.mem_cons_self⟩
        · exact ih (List.mem_cons_of_mem _ h)

/-- Lines that end with `sep` and do not contain it are the parts of the whole, behind which nothing
is left. -/
theorem split_flatMap {sep : Char} {lines : List (List Char)} (h : ∀ line ∈ lines, sep ∉ line) :
    split sep (lines.flatMap fun line => line ++ [sep]) = lines ++ [[]] := by
  induction lines with
  | nil => rfl
  | cons line lines ih =>
    rw [List.flatMap_cons, List.append_assoc, List.singleton_append,
      split_append_cons (h line List.mem_cons_self),
      ih fun l hl => h l (List.mem_cons_of_mem _ hl), List.cons_append]

/-- The parts of a text between the occurrences of `sep`. -/
def parts (sep : Char) (s : String) : List String := (split sep s.toList).map String.ofList

end Hierarchy.Text
