import Hierarchy.Proofs.HierarchyOrder
import Hierarchy.Tree.Synthesis
import Mathlib.Data.List.TakeWhile

/-!
# One level of a drawing

`Synthesizer.level` goes along a list in three ways: it stops at an element outside the level
(`level_outside`), draws an element directly in it (`level_own`), or opens the level below for an
element that lies deeper and goes on behind what belongs there (`level_deeper`).  `walk_induction`
is the induction along these ways; it leaves out what only decorates the rows.
-/

namespace Hierarchy

/-! ## Runs at the front of a list -/

section Runs

variable {β : Type} {p q : β → Bool}

/-- A run of `p` begins with a run of any stronger property. -/
theorem takeWhile_eq_append (h : ∀ x, q x → p x) (l : List β) :
    l.takeWhile p = l.takeWhile q ++ (l.dropWhile q).takeWhile p := by
  induction l with
  | nil => rfl
  | cons x l ih =>
    by_cases hq : q x
    · rw [List.takeWhile_cons_of_pos (h x hq), List.takeWhile_cons_of_pos hq,
        List.dropWhile_cons_of_pos hq, ih, List.cons_append]
    · rw [List.takeWhile_cons_of_neg hq, List.dropWhile_cons_of_neg hq, List.nil_append]

theorem dropWhile_dropWhile_of_imp (h : ∀ x, q x → p x) (l : List β) :
    (l.dropWhile q).dropWhile p = l.dropWhile p := by
  induction l with
  | nil => rfl
  | cons x l ih =>
    by_cases hq : q x
    · rw [List.dropWhile_cons_of_pos hq, List.dropWhile_cons_of_pos (h x hq), ih]
    · rw [List.dropWhile_cons_of_neg hq]

theorem takeWhile_dropWhile_self (p : β → Bool) (l : List β) :
    (l.dropWhile p).takeWhile p = [] := by
  induction l with
  | nil => rfl
  | cons x l ih =>
    by_cases hx : p x
    · rw [List.dropWhile_cons_of_pos hx, ih]
    · rw [List.dropWhile_cons_of_neg hx, List.takeWhile_cons_of_neg hx]

theorem not_of_dropWhile_eq_cons {l l' : List β} {x : β} (h : l.dropWhile p = x :: l') :
    ¬ p x := by
  have hx := List.head?_dropWhile_not p l
  rw [h] at hx
  simpa using hx

end Runs

namespace Synthesizer

variable {K α : Type} [DecidableEq K]

/-! ## Keys below a level -/

/-- The element has `path` among its ancestors' paths. -/
def below (path : List K) (e : Element K α) : Bool := path.isPrefixOf e.ancestors

@[simp] theorem below_iff {path : List K} {e : Element K α} :
    below path e = true ↔ path <+: e.ancestors :=
  List.isPrefixOf_iff_prefix

theorem keyBelow?_eq_some_iff {above ancestors : List K} {key : K} :
    keyBelow? above ancestors = some key ↔ above ++ [key] <+: ancestors := by
  unfold keyBelow?
  constructor
  · intro h
    split at h
    · next hpre =>
      obtain ⟨tail, rfl⟩ := List.isPrefixOf_iff_prefix.1 hpre
      rw [List.drop_left] at h
      obtain ⟨tail', rfl⟩ := List.head?_eq_some_iff.1 h
      exact ⟨tail', by simp⟩
    · cases h
  · rintro ⟨tail, rfl⟩
    rw [List.append_assoc, if_pos (List.isPrefixOf_iff_prefix.2 (List.prefix_append _ _)),
      List.drop_left]
    rfl

theorem keyBelow?_eq_none_iff {above ancestors : List K} (h : above <+: ancestors) :
    keyBelow? above ancestors = none ↔ ancestors = above := by
  obtain ⟨tail, rfl⟩ := h
  unfold keyBelow?
  rw [if_pos (List.isPrefixOf_iff_prefix.2 (List.prefix_append _ _)), List.drop_left]
  simp

/-- What belongs to an entry of the level: the subtree under its next ancestor, and also the
elements below the path that its own key would have directly in the level. -/
theorem belongs_iff {above : List K} {e x : Element K α} :
    belongs above e x = true ↔ ∃ key, above ++ [key] <+: x.ancestors ∧
      (above ++ [key] <+: e.ancestors ∨ e.branchKey? = some key) := by
  unfold belongs
  constructor
  · intro h
    split at h
    · cases h
    · next key hkey =>
      rw [Bool.or_eq_true, beq_iff_eq, beq_iff_eq, keyBelow?_eq_some_iff] at h
      exact ⟨key, keyBelow?_eq_some_iff.1 hkey, h⟩
  · rintro ⟨key, hx, he⟩
    rw [keyBelow?_eq_some_iff.2 hx]
    simp only [Bool.or_eq_true, beq_iff_eq]
    rwa [keyBelow?_eq_some_iff]

theorem belongs_of_prefix {above : List K} {key : K} {e x : Element K α}
    (he : above ++ [key] <+: e.ancestors) (hx : above ++ [key] <+: x.ancestors) :
    belongs above e x = true :=
  belongs_iff.2 ⟨key, hx, Or.inl he⟩

theorem below_of_belongs {above : List K} {e x : Element K α} (h : belongs above e x = true) :
    below above x = true := by
  obtain ⟨key, hx, -⟩ := belongs_iff.1 h
  exact below_iff.2 ((List.prefix_append _ _).trans hx)

/-- Behind an element directly in the level only its own subtree belongs to it. -/
theorem belongs_own_iff {e x : Element K α} :
    belongs e.ancestors e x = true ↔ e.kind = .branch ∧ e.path <+: x.ancestors := by
  rw [belongs_iff]
  constructor
  · rintro ⟨key, hx, he | he⟩
    · exact absurd he.length_le (by simp)
    · obtain ⟨hkind, rfl⟩ := Element.branchKey?_eq_some_iff.1 he
      exact ⟨hkind, hx⟩
  · rintro ⟨hkind, hx⟩
    exact ⟨e.key, hx, Or.inr (Element.branchKey?_eq_some_iff.2 ⟨hkind, rfl⟩)⟩

/-- The walk skips the run of a deeper entry first. -/
theorem dropWhile_belongs {k : K} {above : List K} {e : Element K α}
    (he : above ++ [k] <+: e.ancestors) (rest : List (Element K α)) :
    ((e :: rest).dropWhile (below (above ++ [k]))).dropWhile (belongs above e) =
      rest.dropWhile (belongs above e) := by
  have hbelongs : ∀ x, below (above ++ [k]) x → belongs above e x :=
    fun x hx => belongs_of_prefix he (below_iff.1 hx)
  rw [dropWhile_dropWhile_of_imp hbelongs,
    List.dropWhile_cons_of_pos (hbelongs e (below_iff.2 he))]

/-! ## The three ways of a walk -/

variable (t : Synthesizer K α) (header : String) (above : List K) (drawn : Option K) (index : Nat)

@[simp] theorem level_nil : t.level header above drawn index [] = [] := by
  rw [level]

theorem level_outside {e : Element K α} (h : ¬ above <+: e.ancestors) (rest : List (Element K α)) :
    t.level header above drawn index (e :: rest) = [] := by
  rw [level, if_neg (by rwa [List.isPrefixOf_iff_prefix])]

theorem level_own (e : Element K α) (rest : List (Element K α)) :
    t.level header e.ancestors drawn index (e :: rest) =
      (if e.shown then
        [⟨header ++
            (connector (continues e.ancestors (rest.dropWhile (belongs e.ancestors e)))).1 ++
            t.mark e rest ++ labelText e, .element e⟩] else []) ++
      t.level header e.ancestors e.branchKey? (index + 1) rest := by
  rw [level, if_pos (List.isPrefixOf_iff_prefix.2 (List.prefix_refl _))]
  dsimp only
  split
  · rfl
  · next key hkey => exact absurd (length_lt_of_keyBelow? hkey) (Nat.lt_irrefl _)

theorem level_deeper {key : K} {e : Element K α} (h : above ++ [key] <+: e.ancestors)
    (rest : List (Element K α)) :
    t.level header above drawn index (e :: rest) =
      (if drawn = some key then [] else
        [t.filler (header ++ (connector (continues above (rest.dropWhile (belongs above e)))).1)
          above key index]) ++
      t.level (header ++ (connector (continues above (rest.dropWhile (belongs above e)))).2)
        (above ++ [key]) none index (e :: rest) ++
      t.level header above none
        (index + 1 + (rest.length - (rest.dropWhile (belongs above e)).length))
        (rest.dropWhile (belongs above e)) := by
  have habove : above <+: e.ancestors := (List.prefix_append _ _).trans h
  rw [level, if_pos (List.isPrefixOf_iff_prefix.2 habove)]
  dsimp only
  split
  · next hkey =>
    rw [keyBelow?_eq_some_iff.2 h] at hkey
    cases hkey
  · next key' hkey =>
    rw [keyBelow?_eq_some_iff.2 h] at hkey
    cases hkey
    rfl

/-- Induction along a walk: what holds where the walk ends, and is kept by each of its ways, holds
at every level and for every list. -/
theorem walk_induction {motive : List K → List (Element K α) → Prop}
    (nil : ∀ above, motive above [])
    (outside : ∀ above e rest, ¬ above <+: e.ancestors → motive above (e :: rest))
    (own : ∀ e rest, motive e.ancestors rest → motive e.ancestors (e :: rest))
    (deeper : ∀ above key e rest, above ++ [key] <+: e.ancestors →
      motive (above ++ [key]) (e :: rest) → motive above (rest.dropWhile (belongs above e)) →
      motive above (e :: rest))
    (above : List K) (elements : List (Element K α)) : motive above elements := by
  induction "", above, (none : Option K), 0, elements
    using level.induct (withSymbol "" : Synthesizer K α) with
  | case1 _ above => exact nil above
  | case2 _ above _ _ e rest habove _ _ _ _ hkey ih =>
    have h := (keyBelow?_eq_none_iff (List.isPrefixOf_iff_prefix.1 habove)).1 hkey
    subst h
    exact own e rest ih
  | case3 _ above _ _ e rest _ _ _ _ _ key hkey ih₁ ih₂ =>
    exact deeper above key e rest (keyBelow?_eq_some_iff.1 hkey) ih₁ ih₂
  | case4 _ above _ _ e rest habove =>
    exact outside above e rest (by rwa [List.isPrefixOf_iff_prefix] at habove)

end Synthesizer

end Hierarchy
