import Hierarchy.Proofs.Decimal.NumberForm
import Hierarchy.Proofs.Outcomes
import Hierarchy.Proofs.Settings.Precedence
import Hierarchy.Proofs.Text.SmallLetters

/-!
# Texts in environment variables

A value that has the form of a truth value, of an integer or of a number (`IsSpecial`) is taken for
this, and not for the text that it is.  As the symbol for tree rows it is then written anew, and is
the symbol as it stands only if this gives the same text (`WrittenAsIs`).  As sort criteria it is no
list and counts for nothing.  All other values are taken literally (`load_text_variables`).
-/

namespace Hierarchy

namespace Environment

/-- The value is a word for a truth value. -/
def IsTruth (v : String) : Prop := Text.lowerCase v = "true" ∨ Text.lowerCase v = "false"

/-- The value has a form that is taken for more than a text. -/
def IsSpecial (v : String) : Prop := IsTruth v ∨ Decimal.NumberForm v.toList

/-- The value is no special one, or it is what is written anew for it. -/
inductive WrittenAsIs (v : String) : Prop where
  | truth (h : v = "true" ∨ v = "false")
  | integer {n : Int} (hlow : -Text.int64Limit ≤ n) (hhigh : n < Text.int64Limit)
      (h : v = toString n)
  | number {x : Binary64} (hinteger : Text.readInt64? v.toList = none)
      (hread : Decimal.read? v.toList = some x) (h : v = x.text)
  | text (h : ¬IsSpecial v)

instance (v : String) : Decidable (IsTruth v) :=
  inferInstanceAs (Decidable (Text.lowerCase v = "true" ∨ Text.lowerCase v = "false"))

instance (v : String) : Decidable (IsSpecial v) :=
  inferInstanceAs (Decidable (IsTruth v ∨ Decimal.NumberForm v.toList))

variable {v : String}

/-! ## What a value is taken for -/

/-- In small letters, a number does not start as a word for a truth value does. -/
theorem head_lower_of_numberForm {cs : List Char} (h : Decimal.NumberForm cs) :
    ∀ c ∈ (Text.lower cs).head?, c ≠ 't' ∧ c ≠ 'f' := by
  obtain ⟨first, rest, rfl, hfirst⟩ := h.head
  have hform : first ≠ 'Σ' ∧ ∃ d, Text.lowerChar first = [d] ∧ d ≠ 't' ∧ d ≠ 'f' := by
    rcases hfirst with hlt | rfl | rfl | rfl | rfl
    · obtain ⟨hsmall, hsigma⟩ := Text.isSmall_of_lt hlt
      refine ⟨hsigma, first, hsmall, ?_, ?_⟩ <;>
      · rintro rfl
        exact absurd hlt (by decide)
    · exact ⟨by decide, 'i', by decide +kernel, by decide⟩
    · exact ⟨by decide, 'i', by decide +kernel, by decide⟩
    · exact ⟨by decide, 'n', by decide +kernel, by decide⟩
    · exact ⟨by decide, 'n', by decide +kernel, by decide⟩
  obtain ⟨hsigma, d, hd, hne⟩ := hform
  rw [Text.lower, Text.lowerAfter_cons, Text.smallForm, if_neg hsigma, hd]
  rintro _ ⟨⟩
  exact hne

/-- No number is a word for a truth value. -/
theorem not_isTruth_of_numberForm (h : Decimal.NumberForm v.toList) : ¬IsTruth v := by
  have hhead := head_lower_of_numberForm h
  have hlower : (Text.lowerCase v).toList = Text.lower v.toList := String.toList_ofList
  rw [← hlower] at hhead
  rintro (hword | hword)
  · rw [hword] at hhead
    exact (hhead 't' rfl).1 rfl
  · rw [hword] at hhead
    exact (hhead 'f' rfl).2 rfl

theorem numberForm_of_readInt64? {n : Int} (h : Text.readInt64? v.toList = some n) :
    Decimal.NumberForm v.toList := by
  have hread := Option.mem_filter_iff.1 (Option.mem_def.2 h)
  refine Decimal.numberForm_of_integer (Text.readInt?_isSome_iff.1 ?_)
  rw [Option.mem_def.1 hread.1]
  rfl

section Guesses

variable {isList : Bool}

theorem ofText_of_truth (isList : Bool) (h : IsTruth v) :
    ∃ b, Guess.ofText isList v = .truth b ∧ Text.lowerCase v = if b then "true" else "false" := by
  unfold Guess.ofText
  rcases h with h | h
  · exact ⟨true, by rw [h]; rfl, h⟩
  · exact ⟨false, by rw [h]; rfl, h⟩

theorem ofText_of_integer {n : Int} (h : Text.readInt64? v.toList = some n) :
    Guess.ofText isList v = .integer n := by
  have hnot := not_or.1 (not_isTruth_of_numberForm (numberForm_of_readInt64? h))
  unfold Guess.ofText
  dsimp only
  rw [if_neg hnot.1, if_neg hnot.2, h]

theorem ofText_of_number {x : Binary64} (hinteger : Text.readInt64? v.toList = none)
    (h : Decimal.read? v.toList = some x) : Guess.ofText isList v = .number x := by
  have hform : Decimal.NumberForm v.toList := Decimal.read?_isSome_iff.1 (by rw [h]; rfl)
  have hnot := not_or.1 (not_isTruth_of_numberForm hform)
  unfold Guess.ofText
  dsimp only
  rw [if_neg hnot.1, if_neg hnot.2, hinteger]
  dsimp only
  rw [h]

theorem ofText_of_not_isSpecial (h : ¬IsSpecial v) :
    Guess.ofText isList v = if isList then .list (Text.parts ',' v) else .text v := by
  obtain ⟨htruth, hnumber⟩ := not_or.1 h
  have hinteger : Text.readInt64? v.toList = none :=
    Option.eq_none_iff_forall_ne_some.2 fun n hn => hnumber (numberForm_of_readInt64? hn)
  have hread : Decimal.read? v.toList = none := by
    rw [← Option.not_isSome_iff_eq_none, Decimal.read?_isSome_iff]
    exact hnumber
  obtain ⟨htrue, hfalse⟩ := not_or.1 htruth
  unfold Guess.ofText
  dsimp only
  rw [if_neg htrue, if_neg hfalse, hinteger]
  dsimp only
  rw [hread]

/-- A value is special in one of three ways. -/
theorem IsSpecial.cases (h : IsSpecial v) :
    IsTruth v ∨ (∃ n, Text.readInt64? v.toList = some n) ∨
      Text.readInt64? v.toList = none ∧ ∃ x, Decimal.read? v.toList = some x := by
  refine h.imp_right fun hnumber => ?_
  cases hinteger : Text.readInt64? v.toList with
  | some n => exact .inl ⟨n, rfl⟩
  | none => exact .inr ⟨rfl, Option.isSome_iff_exists.1 (Decimal.read?_isSome_iff.2 hnumber)⟩

/-- A value that is taken for a truth value or a number is no list. -/
theorem strings?_of_isSpecial (h : IsSpecial v) : (Guess.ofText isList v).strings? = none := by
  rcases h.cases with h | ⟨n, h⟩ | ⟨hinteger, x, h⟩
  · obtain ⟨b, hb, -⟩ := ofText_of_truth isList h
    rw [hb]
    rfl
  · rw [ofText_of_integer h]
    rfl
  · rw [ofText_of_number hinteger h]
    rfl

end Guesses

theorem WrittenAsIs.text?_eq (h : WrittenAsIs v) : (Guess.ofText false v).text? = some v := by
  cases h with
  | truth h => rcases h with rfl | rfl <;> decide +kernel
  | integer hlow hhigh h =>
    subst h
    rw [ofText_of_integer (Text.readInt64?_toString hlow hhigh)]
    rfl
  | number hinteger hread h =>
    rw [ofText_of_number hinteger hread]
    exact congrArg some h.symm
  | text h =>
    rw [ofText_of_not_isSpecial h]
    rfl

/-- There is a text for every value, and it is the value only for those that are written as they
are. -/
theorem exists_text? (v : String) :
    ∃ text, (Guess.ofText false v).text? = some text ∧ (text = v → WrittenAsIs v) := by
  by_cases hspecial : IsSpecial v
  · rcases hspecial.cases with h | ⟨n, h⟩ | ⟨hinteger, x, h⟩
    · obtain ⟨b, hb, -⟩ := ofText_of_truth false h
      rw [hb]
      refine ⟨_, rfl, fun heq => .truth ?_⟩
      cases b
      · exact .inr heq.symm
      · exact .inl heq.symm
    · rw [ofText_of_integer h]
      obtain ⟨-, hrange⟩ := Option.mem_filter_iff.1 (Option.mem_def.2 h)
      rw [Bool.and_eq_true, decide_eq_true_eq, decide_eq_true_eq] at hrange
      exact ⟨_, rfl, fun heq => .integer hrange.1 hrange.2 heq.symm⟩
    · rw [ofText_of_number hinteger h]
      exact ⟨_, rfl, fun heq => .number hinteger h heq.symm⟩
  · rw [ofText_of_not_isSpecial hspecial]
    exact ⟨v, rfl, fun _ => .text hspecial⟩

/-! ## Settings -/

variable {env : Environment} {o : Overlay}

theorem overlay_texts (h : env.overlay = .ok o) :
    o.nodeSymbol = (env.guess? "node_symbol").bind Guess.text? ∧
      o.sort = match env.guess? "sort" with
        | some guess => guess.strings?
        | none => env.items? "sort" := by
  rw [overlay_eq_do] at h
  obtain ⟨parallel, -, h⟩ := eq_ok_of_bind h
  obtain ⟨output, -, h⟩ := eq_ok_of_bind h
  obtain rfl := Except.ok.inj h
  exact ⟨rfl, rfl⟩

theorem nodeSymbol_overlay (h : env.overlay = .ok o) (hv : env.setting? "node_symbol" = some v) :
    ∃ text, o.nodeSymbol = some text ∧ (text = v ↔ WrittenAsIs v) := by
  have hguess : env.guess? "node_symbol" = some (Guess.ofText false v) := by
    unfold guess?
    rw [hv]
    rfl
  obtain ⟨text, htext, hwritten⟩ := exists_text? v
  refine ⟨text, ?_, hwritten, fun h => ?_⟩
  · rw [(overlay_texts h).1, hguess, ← htext]
    rfl
  · exact Option.some.inj (htext.symm.trans h.text?_eq)

theorem sort_overlay (h : env.overlay = .ok o) (hv : env.setting? "sort" = some v) :
    o.sort = if IsSpecial v then none else some (Text.parts ',' v) := by
  have hguess : env.guess? "sort" = some (Guess.ofText true v) := by
    unfold guess?
    rw [hv]
    rfl
  rw [(overlay_texts h).2, hguess]
  dsimp only
  split
  · next hspecial => exact strings?_of_isSpecial hspecial
  · next hspecial =>
    rw [ofText_of_not_isSpecial hspecial]
    rfl

end Environment

/-- Settings that are loaded have the symbol of the variable for it as it stands exactly if the
value is written as it is.  They have the sort criteria of the variable for them if its value is no
special one, and otherwise those of the settings files. -/
theorem Settings.load_text_variables {files : FileTree} {env : Environment} {named : Option String}
    {s : Settings} (h : load files env named = .ok s) :
    (∀ v, env.setting? "node_symbol" = some v → (s.nodeSymbol = v ↔ Environment.WrittenAsIs v)) ∧
      ∀ v, env.setting? "sort" = some v →
        (¬Environment.IsSpecial v → s.sort = Text.parts ',' v) ∧
        (Environment.IsSpecial v → ∃ g n, globalLayer files env = .ok g ∧
          namedLayer files env named = .ok n ∧
          s.sort = ((Settings.default.merge g).merge n).sort) := by
  obtain ⟨g, hglobal, h⟩ := eq_ok_of_bind h
  obtain ⟨n, hnamed, h⟩ := eq_ok_of_bind h
  obtain ⟨o, hoverlay, h⟩ := eq_ok_of_bind h
  obtain rfl := Except.ok.inj h
  refine ⟨fun v hv => ?_, fun v hv => ?_⟩
  · obtain ⟨text, htext, hwritten⟩ := Environment.nodeSymbol_overlay hoverlay hv
    rw [← hwritten, Settings.merge, htext]
    rfl
  · have hsort := Environment.sort_overlay hoverlay hv
    refine ⟨fun hplain => ?_, fun hspecial => ⟨g, n, hglobal, hnamed, ?_⟩⟩
    · rw [if_neg hplain] at hsort
      rw [Settings.merge, hsort]
      rfl
    · rw [if_pos hspecial] at hsort
      rw [Settings.merge, hsort]
      rfl

/-- No settings files at all. -/
def noFiles : FileTree := ⟨[], [], false⟩

/-- Two variables with values that are no special ones. -/
def plainVariables : Environment :=
  [("HIERTREE_SORT", "-size,name"), ("HIERTREE_NODE_SYMBOL", "+")]

theorem plainVariables_loaded :
    ∃ s, Settings.load noFiles plainVariables none = .ok s ∧
      s.nodeSymbol = "+" ∧ s.sort = Text.parts ',' "-size,name" := by
  have hload : Settings.load noFiles plainVariables none =
      .ok ⟨false, 0, ["-size", "name"], .table, "+"⟩ := by decide +kernel
  have hsymbol : plainVariables.setting? "node_symbol" = some "+" := by decide +kernel
  have hsort : plainVariables.setting? "sort" = some "-size,name" := by decide +kernel
  have hplain : ¬Environment.IsSpecial "+" := by decide +kernel
  have hplain' : ¬Environment.IsSpecial "-size,name" := by decide +kernel
  obtain ⟨hnode, hcriteria⟩ := Settings.load_text_variables hload
  exact ⟨_, hload, (hnode _ hsymbol).2 (.text hplain), (hcriteria _ hsort).1 hplain'⟩

/-- Two variables with values that are integers. -/
def integerVariables : Environment := [("HIERTREE_NODE_SYMBOL", "007"), ("HIERTREE_SORT", "7")]

/-- The zeros are gone, and so is the criterion. -/
theorem integerVariables_lost :
    ∃ s, Settings.load noFiles integerVariables none = .ok s ∧
      integerVariables.setting? "node_symbol" = some "007" ∧ s.nodeSymbol ≠ "007" ∧
      integerVariables.setting? "sort" = some "7" ∧ s.sort ≠ Text.parts ',' "7" :=
  ⟨⟨false, 0, [], .table, "7"⟩, by decide +kernel, by decide +kernel, by decide +kernel,
    by decide +kernel, by decide +kernel⟩

end Hierarchy
