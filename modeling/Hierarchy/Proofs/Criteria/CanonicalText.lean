import Hierarchy.Criteria
import Hierarchy.Proofs.Outcomes
import Hierarchy.Proofs.Text.SmallLetters

/-!
# Criteria written again

Criteria are read from items, each of which may hold several.  How they are spread over the items
does not matter: all items joined with commas are read alike (`parseCriteria_intercalate`).

A criterion is read from its source by trimming it and writing it in small letters, and its text is
the outcome of this (`Criterion.text_of_parse`).  Done twice this changes nothing, so a criterion is
read back from its text (`Criterion.parse_text`).  As texts of criteria hold no commas, criteria are
read back from their texts joined with commas (`parseCriteria_canonical`).
-/

namespace Hierarchy

/-! ## One criterion -/

namespace Criterion

variable {source : String} {c : Criterion}

theorem text_of_parse (h : parse source = .ok c) :
    c.text.toList = Text.lower (Text.trim source.toList) := by
  unfold parse at h
  dsimp only at h
  split at h
  · next name hread =>
    split at h
    · cases h
    · obtain rfl := Except.ok.inj h
      rw [hread]
      simp [text]
  · split at h
    · cases h
    · obtain rfl := Except.ok.inj h
      simp [text]

theorem parse_congr {source source' : String}
    (h : Text.lower (Text.trim source.toList) = Text.lower (Text.trim source'.toList)) :
    parse source = parse source' := by
  unfold parse
  rw [h]

/-- A criterion is read back from its text. -/
theorem parse_text (h : parse source = .ok c) : parse c.text = .ok c := by
  have hsame : Text.lower (Text.trim c.text.toList) = Text.lower (Text.trim source.toList) := by
    rw [text_of_parse h, Text.trim_lower (Text.trim_trim _), Text.lower_lower]
  rw [parse_congr hsame, h]

end Criterion

/-! ## Criteria in items -/

/-- Texts of criteria as they stand between commas. -/
def IsPart (part : String) : Prop :=
  ',' ∉ part.toList ∧ (Text.trim part.toList).isEmpty = false

theorem isPart_of_mem {item part : String} (h : part ∈ criteriaParts item) : IsPart part := by
  unfold criteriaParts Text.parts at h
  obtain ⟨hmem, hblank⟩ := List.mem_filter.1 h
  obtain ⟨cs, hcs, rfl⟩ := List.mem_map.1 hmem
  rw [Bool.not_eq_true'] at hblank
  refine ⟨?_, hblank⟩
  rw [String.toList_ofList]
  exact Text.not_mem_of_mem_split hcs

theorem IsPart.criteriaParts_eq {part : String} (h : IsPart part) :
    criteriaParts part = [part] := by
  unfold criteriaParts Text.parts
  rw [Text.split_of_not_mem h.1, List.map_singleton, String.ofList_toList, List.filter_singleton,
    h.2]
  rfl

/-- All parts of all items, when these are joined with commas. -/
theorem criteriaParts_intercalate (items : List String) :
    criteriaParts (",".intercalate items) = items.flatMap criteriaParts := by
  by_cases hitems : items = []
  · subst hitems
    rfl
  · unfold criteriaParts Text.parts
    rw [String.toList_intercalate]
    rw [show ",".toList = [','] from rfl, Text.split_intercalate ',' (by simpa using hitems)]
    simp [List.filter_flatMap, List.map_flatMap, List.flatMap_map]

/-- How criteria are spread over items does not matter. -/
theorem parseCriteria_intercalate (items : List String) :
    parseCriteria [",".intercalate items] = parseCriteria items := by
  unfold parseCriteria
  rw [List.flatMap_singleton, criteriaParts_intercalate]

/-- The text of a criterion stands between commas as it is. -/
theorem isPart_text {part : String} {c : Criterion} (hpart : IsPart part)
    (h : Criterion.parse part = .ok c) : IsPart c.text := by
  have htrim : Text.trim c.text.toList = c.text.toList := by
    rw [Criterion.text_of_parse h]
    exact Text.trim_lower (Text.trim_trim _)
  refine ⟨fun hcomma => ?_, ?_⟩
  · rw [Criterion.text_of_parse h] at hcomma
    exact hpart.1 ((Text.trim_sublist _).subset (Text.mem_of_mem_lower hcomma rfl))
  · rw [htrim, Criterion.text_of_parse h, List.isEmpty_eq_false_iff, ne_eq, Text.lower,
      Text.lowerAfter_eq_nil_iff]
    exact List.isEmpty_eq_false_iff.1 hpart.2

theorem mapM_parse_text {criteria : List Criterion}
    (h : ∀ c ∈ criteria, Criterion.parse c.text = .ok c) :
    (criteria.map Criterion.text).mapM Criterion.parse = .ok criteria := by
  induction criteria with
  | nil => rfl
  | cons c criteria ih =>
    obtain ⟨hc, hcriteria⟩ := List.forall_mem_cons.1 h
    rw [List.map_cons, List.mapM_cons, hc, ih hcriteria]
    rfl

/-- Criteria that are read are read again from their texts joined with commas, and also from the
items joined with commas. -/
theorem parseCriteria_canonical {items : List String} {criteria : List Criterion}
    (h : parseCriteria items = .ok criteria) :
    parseCriteria [",".intercalate (criteria.map Criterion.text)] = .ok criteria ∧
      parseCriteria [",".intercalate items] = .ok criteria := by
  have hparts : ∀ c ∈ criteria, IsPart c.text ∧ Criterion.parse c.text = .ok c := by
    intro c hc
    obtain ⟨part, hmem, hpart⟩ := exists_of_mem_mapM h hc
    obtain ⟨item, -, hitem⟩ := List.mem_flatMap.1 hmem
    exact ⟨isPart_text (isPart_of_mem hitem) hpart, Criterion.parse_text hpart⟩
  have htexts : (criteria.map Criterion.text).flatMap criteriaParts =
      criteria.map Criterion.text := by
    rw [List.flatMap_map, List.flatMap_congr fun c hc => (hparts c hc).1.criteriaParts_eq,
      ← List.map_eq_flatMap]
  refine ⟨?_, (parseCriteria_intercalate items).trans h⟩
  rw [parseCriteria_intercalate, parseCriteria, htexts]
  exact mapM_parse_text fun c hc => (hparts c hc).2

/-- Empty parts, blanks behind the hyphen, a second hyphen and a final sigma. -/
theorem parseCriteria_sigma :
    parseCriteria ["Name, -SIZE ,,", " - ΟΔΟΣ", "--x"] =
        .ok [⟨"name", false⟩, ⟨"size", true⟩, ⟨" οδος", true⟩, ⟨"-x", true⟩] ∧
      parseCriteria ["name,-size,- οδος,--x"] =
        .ok [⟨"name", false⟩, ⟨"size", true⟩, ⟨" οδος", true⟩, ⟨"-x", true⟩] := by
  have h : parseCriteria ["Name, -SIZE ,,", " - ΟΔΟΣ", "--x"] =
      .ok [⟨"name", false⟩, ⟨"size", true⟩, ⟨" οδος", true⟩, ⟨"-x", true⟩] := by decide +kernel
  exact ⟨h, (parseCriteria_canonical h).1⟩

end Hierarchy
