import Hierarchy.Element
import Mathlib.Data.List.Triplewise
import Mathlib.Data.List.Infix

/-!
# Lists in the order of a hierarchy

A list is in hierarchy order (`InHierarchyOrder`) if every subtree is one run of it and no element
stands behind a descendant.  It may leave out any element.  It is complete (`PrefixClosed`) if
each level above an element has an element of its own.

Two facts serve the proofs about drawing: what stands between two elements with common ancestors
has these ancestors too (`InHierarchyOrder.between_ancestors`), and in a complete list an element
directly follows the ancestors that it needs (`InHierarchyOrder.prefix_of_previous`).
-/

namespace Hierarchy

variable {K α : Type}

/-! ## Paths and ancestors -/

theorem concat_not_prefix_self (path : List K) (k : K) : ¬ path ++ [k] <+: path := by
  intro h
  have hle := h.length_le
  rw [List.length_append, List.length_singleton] at hle
  omega

/-- The last element of a list lies in its last part, unless this is empty. -/
theorem mem_of_append_eq_concat {β : Type} {a b c : List β} {x : β} (hne : b ≠ [])
    (h : a ++ b = c ++ [x]) : x ∈ b := by
  have hlast := congrArg List.getLast? h
  rw [List.getLast?_append_of_ne_nil _ hne, List.getLast?_concat] at hlast
  exact List.mem_of_getLast? hlast

/-- Two keys that continue one path within another are the same. -/
theorem key_unique {above path : List K} {j k : K} (hj : above ++ [j] <+: path)
    (hk : above ++ [k] <+: path) : j = k := by
  have h := List.prefix_of_prefix_length_le hj hk (by simp)
  simpa using h

namespace Element

theorem path_eq (e : Element K α) : e.path = e.ancestors ++ [e.key] := rfl

theorem ancestors_prefix_path (e : Element K α) : e.ancestors <+: e.path :=
  List.prefix_append _ _

theorem prefix_path_iff {e : Element K α} {p : List K} :
    p <+: e.path ↔ p <+: e.ancestors ∨ p = e.path := by
  rw [path_eq, List.prefix_concat_iff, or_comm]

/-- A path that begins the ancestors is not the path of the element. -/
theorem ne_path_of_prefix_ancestors {e : Element K α} {p : List K} (h : p <+: e.ancestors) :
    p ≠ e.path := by
  rintro rfl
  exact concat_not_prefix_self _ _ h

theorem strict_prefix_path_iff {e : Element K α} {p : List K} :
    p <+: e.path ∧ p ≠ e.path ↔ p <+: e.ancestors := by
  constructor
  · rintro ⟨h, hne⟩
    exact (prefix_path_iff.1 h).resolve_right hne
  · intro h
    exact ⟨h.trans e.ancestors_prefix_path, ne_path_of_prefix_ancestors h⟩

/-- What leads to an element also leads to what lies at or below it. -/
theorem ancestors_prefix_of_path_prefix {d e : Element K α} (h : d.path <+: e.path) :
    d.ancestors <+: e.ancestors := by
  rcases prefix_path_iff.1 h with h | h
  · exact d.ancestors_prefix_path.trans h
  · rw [path_eq, path_eq] at h
    rw [(List.append_inj' h rfl).1]

theorem branchKey?_eq_some_iff {e : Element K α} {k : K} :
    e.branchKey? = some k ↔ e.kind = .branch ∧ e.key = k := by
  unfold branchKey?
  cases e.kind <;> simp

end Element

/-! ## Hierarchy order -/

/-- Every subtree is one run of the list, and no element stands behind a descendant. -/
structure InHierarchyOrder (l : List (Element K α)) : Prop where
  /-- What stands between two elements that share a prefix has this prefix. -/
  contiguous : l.Triplewise fun x y z => ∀ p, p <+: x.path → p <+: z.path → p <+: y.path
  /-- A later element lies above an earlier one only if their paths are equal. -/
  ancestorFirst : l.Pairwise fun x y => y.path <+: x.path → y.path = x.path

/-- Every level above a listed element has an element of its own. -/
def PrefixClosed (l : List (Element K α)) : Prop :=
  ∀ x ∈ l, ∀ p, p ≠ [] → p <+: x.path → ∃ y ∈ l, y.path = p

theorem PrefixClosed.perm {l l' : List (Element K α)} (closed : PrefixClosed l)
    (perm : l.Perm l') : PrefixClosed l' := by
  intro x hx p hp hpx
  obtain ⟨y, hy, hpath⟩ := closed x (perm.mem_iff.2 hx) p hp hpx
  exact ⟨y, perm.mem_iff.1 hy, hpath⟩

instance decidableTriplewise {β : Type} {r : β → β → β → Prop} [∀ x y z, Decidable (r x y z)] :
    DecidablePred (List.Triplewise r)
  | [] => isTrue .nil
  | x :: l =>
    have : Decidable (l.Triplewise r) := decidableTriplewise l
    decidable_of_iff (l.Pairwise (r x) ∧ l.Triplewise r) List.triplewise_cons.symm

instance [DecidableEq K] (l : List (Element K α)) : Decidable (InHierarchyOrder l) :=
  decidable_of_iff
    ((l.Triplewise fun x y z => ∀ p ∈ x.path.inits, p <+: z.path → p <+: y.path) ∧
      l.Pairwise fun x y => y.path <+: x.path → y.path = x.path)
    ⟨fun ⟨h, h'⟩ => ⟨h.imp fun hxyz p hpx => hxyz p ((List.mem_inits _ _).2 hpx), h'⟩,
      fun ⟨h, h'⟩ => ⟨h.imp fun hxyz p hpx => hxyz p ((List.mem_inits _ _).1 hpx), h'⟩⟩

instance [DecidableEq K] (l : List (Element K α)) : Decidable (PrefixClosed l) :=
  decidable_of_iff (∀ x ∈ l, ∀ p ∈ x.path.inits, p ≠ [] → ∃ y ∈ l, y.path = p)
    ⟨fun h x hx p hp hpx => h x hx p ((List.mem_inits _ _).2 hpx) hp,
      fun h x hx p hpx hp => h x hx p hp ((List.mem_inits _ _).1 hpx)⟩

theorem triplewise_of_sublist {β : Type} {r : β → β → β → Prop} {l l' : List β}
    (h : l'.Sublist l) (hl : l.Triplewise r) : l'.Triplewise r := by
  induction h with
  | slnil => exact hl
  | cons _ _ ih => exact ih (List.triplewise_cons.1 hl).2
  | cons_cons _ h ih =>
    obtain ⟨hfirst, hrest⟩ := List.triplewise_cons.1 hl
    exact List.triplewise_cons.2 ⟨hfirst.sublist h, ih hrest⟩

theorem triplewise_iff_forall_sublist {β : Type} {r : β → β → β → Prop} {l : List β} :
    l.Triplewise r ↔ ∀ {x y z}, [x, y, z].Sublist l → r x y z := by
  constructor
  · intro hl x y z h
    exact List.triplewise_triple.1 (triplewise_of_sublist h hl)
  · intro h
    induction l with
    | nil => exact .nil
    | cons a l ih =>
      refine .cons (List.pairwise_iff_forall_sublist.2 fun {x y} hxy => h (hxy.cons_cons a)) ?_
      exact ih fun hxyz => h (hxyz.cons a)

namespace InHierarchyOrder

variable {before rest : List (Element K α)} {e x z : Element K α} {p : List K}

theorem sublist {l l' : List (Element K α)} (h : l'.Sublist l) (order : InHierarchyOrder l) :
    InHierarchyOrder l' :=
  ⟨triplewise_of_sublist h order.contiguous, order.ancestorFirst.sublist h⟩

theorem between (h : InHierarchyOrder (before ++ e :: rest)) (hx : x ∈ before) (hz : z ∈ rest)
    (hpx : p <+: x.path) (hpz : p <+: z.path) : p <+: e.path := by
  have hpairs := (List.triplewise_append.1 h.contiguous).2.2.1 x hx
  exact (List.pairwise_cons.1 hpairs).1 z hz p hpx hpz

theorem not_ancestor (h : InHierarchyOrder (before ++ e :: rest)) (hx : x ∈ before) :
    e.path <+: x.path → e.path = x.path :=
  (List.pairwise_append.1 h.ancestorFirst).2.2 x hx e List.mem_cons_self

theorem not_ancestor' (h : InHierarchyOrder (before ++ e :: rest)) (hz : z ∈ rest) :
    z.path <+: e.path → z.path = e.path :=
  (List.pairwise_cons.1 (List.pairwise_append.1 h.ancestorFirst).2.1).1 z hz

theorem between_ancestors (h : InHierarchyOrder (before ++ e :: rest)) (hx : x ∈ before)
    (hz : z ∈ rest) (hpx : p <+: x.ancestors) (hpz : p <+: z.ancestors) : p <+: e.ancestors := by
  have hpe : p <+: e.path := h.between hx hz (hpx.trans x.ancestors_prefix_path)
    (hpz.trans z.ancestors_prefix_path)
  rcases Element.prefix_path_iff.1 hpe with hpe | rfl
  · exact hpe
  · have heq := h.not_ancestor hx (hpx.trans x.ancestors_prefix_path)
    exact absurd heq (Element.ne_path_of_prefix_ancestors hpx)

/-- In a complete list the element before one below `p` has the prefix `p`: it is the element at
`p` or stands below it. -/
theorem prefix_of_previous (h : InHierarchyOrder (before ++ e :: rest))
    (hclosed : PrefixClosed (before ++ e :: rest)) (hp : p ≠ []) (hpe : p <+: e.ancestors) :
    ∃ before' x, before = before' ++ [x] ∧ p <+: x.path := by
  obtain ⟨y, hy, rfl⟩ := hclosed e (by simp) p hp (hpe.trans e.ancestors_prefix_path)
  have hybefore : y ∈ before := by
    rcases List.mem_append.1 hy with hy | hy
    · exact hy
    · rcases List.mem_cons.1 hy with rfl | hy
      · exact absurd rfl (Element.ne_path_of_prefix_ancestors hpe)
      · have := h.not_ancestor' hy (hpe.trans e.ancestors_prefix_path)
        exact absurd this (Element.ne_path_of_prefix_ancestors hpe)
  obtain ⟨before', x, rfl⟩ :=
    (List.eq_nil_or_concat' before).resolve_left (List.ne_nil_of_mem hybefore)
  refine ⟨before', x, rfl, ?_⟩
  rcases List.mem_append.1 hybefore with hy' | hy'
  · have h' : InHierarchyOrder (before' ++ x :: e :: rest) := by simpa using h
    exact h'.between hy' List.mem_cons_self (List.prefix_refl _) (hpe.trans e.ancestors_prefix_path)
  · rw [List.mem_singleton] at hy'
    rw [hy']

end InHierarchyOrder

end Hierarchy
