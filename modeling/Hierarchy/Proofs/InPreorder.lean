import Hierarchy.Proofs.HierarchyOrder
import Mathlib.Data.List.Induction

/-!
# Lists in pre-order

A list is in pre-order (`InPreorder`) if each of its elements stands at the top, or behind its
parent with only what lies below the parent in between.  A list that grows in this way stays
complete, and as long as no path comes twice also in hierarchy order (`PrefixClosed.concat`,
`InHierarchyOrder.concat`).  So a list in pre-order is complete (`InPreorder.closed`), and in
hierarchy order if its paths are distinct (`InPreorder.order`).
-/

namespace Hierarchy

/-- An element of a list that is put together stands in the first part or in the second. -/
theorem append_eq_append_cons {β : Type} {l l' before after : List β} {x : β}
    (h : l ++ l' = before ++ x :: after) :
    (∃ rest, l = before ++ x :: rest) ∨
      ∃ before', before = l ++ before' ∧ l' = before' ++ x :: after := by
  rcases List.append_eq_append_iff.1 h with ⟨before', hbefore, hl'⟩ | ⟨rest, hl, hafter⟩
  · exact .inr ⟨before', hbefore, hl'⟩
  · cases rest with
    | nil => exact .inr ⟨[], by simpa using hl.symm, hafter.symm⟩
    | cons y rest =>
      obtain ⟨rfl, -⟩ := List.cons_eq_cons.1 hafter
      exact .inl ⟨rest, hl⟩

variable {K α : Type} {l : List (Element K α)} {z : Element K α}

/-- The parent of `x` stands in a list, and all behind it lies strictly below it.  So the parent is
the nearest element at its path. -/
def FollowsParent (before : List (Element K α)) (x : Element K α) : Prop :=
  ∃ earlier p between, before = earlier ++ p :: between ∧ p.path = x.ancestors ∧
    ∀ y ∈ between, p.path <+: y.ancestors

theorem FollowsParent.append_left {before : List (Element K α)} {x : Element K α}
    (h : FollowsParent before x) (l : List (Element K α)) : FollowsParent (l ++ before) x := by
  obtain ⟨earlier, p, between, rfl, hparent⟩ := h
  exact ⟨l ++ earlier, p, between, (List.append_assoc _ _ _).symm, hparent⟩

/-- The element stands at the top, or follows its parent. -/
def TopOrFollows (before : List (Element K α)) (x : Element K α) : Prop :=
  x.ancestors = [] ∨ FollowsParent before x

/-- All elements of a list stand at the top or follow their parents. -/
def InPreorder (l : List (Element K α)) : Prop :=
  ∀ before x after, l = before ++ x :: after → TopOrFollows before x

theorem TopOrFollows.append_left {before : List (Element K α)} {x : Element K α}
    (h : TopOrFollows before x) (l : List (Element K α)) : TopOrFollows (l ++ before) x :=
  h.imp_right fun hfollows => hfollows.append_left l

theorem InPreorder.append {l' : List (Element K α)} (h : InPreorder l) (h' : InPreorder l') :
    InPreorder (l ++ l') := by
  intro before x after hsplit
  rcases append_eq_append_cons hsplit with ⟨rest, hl⟩ | ⟨before', rfl, hl'⟩
  · exact h before x rest hl
  · exact (h' before' x after hl').append_left l

theorem InPreorder.flatMap {β : Type} {f : β → List (Element K α)} {bs : List β}
    (h : ∀ b ∈ bs, InPreorder (f b)) : InPreorder (bs.flatMap f) := by
  induction bs with
  | nil =>
    intro before x after hsplit
    simp at hsplit
  | cons b bs ih =>
    obtain ⟨hb, hbs⟩ := List.forall_mem_cons.1 h
    rw [List.flatMap_cons]
    exact hb.append (ih hbs)

/-! ## What may come next -/

/-- An element directly below `path` may come next. -/
def Admits (before : List (Element K α)) (path : List K) : Prop :=
  ∀ x : Element K α, x.ancestors = path → TopOrFollows before x

theorem admits_top : Admits l [] := fun _ => .inl

theorem admits_own : Admits (l ++ [z]) z.path :=
  fun _ hx => .inr ⟨l, z, [], rfl, hx.symm, by simp⟩

/-- What has been put below a path does not close it. -/
theorem Admits.append {l' : List (Element K α)} {path : List K} (h : Admits l path)
    (hbelow : ∀ y ∈ l', path <+: y.ancestors) : Admits (l ++ l') path := by
  intro x hx
  rcases h x hx with htop | ⟨earlier, w, between, rfl, hparent, hbetween⟩
  · exact .inl htop
  · refine .inr ⟨earlier, w, between ++ l', by simp, hparent, fun y hy => ?_⟩
    rcases List.mem_append.1 hy with hy | hy
    · exact hbetween y hy
    · rw [hparent, hx]
      exact hbelow y hy

/-! ## One more element -/

theorem InPreorder.concat (h : InPreorder l) (hz : TopOrFollows l z) : InPreorder (l ++ [z]) := by
  intro before x after hsplit
  rcases append_eq_append_cons hsplit with ⟨rest, hl⟩ | ⟨before', rfl, hlast⟩
  · exact h before x rest hl
  · obtain ⟨rfl, rfl, -⟩ := by simpa [List.singleton_eq_append_iff] using hlast
    simpa using hz

theorem PrefixClosed.concat (closed : PrefixClosed l) (hz : TopOrFollows l z) :
    PrefixClosed (l ++ [z]) := by
  intro x hx p hp hpx
  rcases List.mem_append.1 hx with hx | hx
  · obtain ⟨y, hy, hpath⟩ := closed x hx p hp hpx
    exact ⟨y, List.mem_append_left _ hy, hpath⟩
  · obtain rfl := List.mem_singleton.1 hx
    rcases Element.prefix_path_iff.1 hpx with hpx | rfl
    · rcases hz with htop | ⟨earlier, w, between, rfl, hpath, -⟩
      · rw [htop, List.prefix_nil] at hpx
        exact absurd hpx hp
      · obtain ⟨y, hy, hpath'⟩ := closed w (by simp) p hp (hpath ▸ hpx)
        exact ⟨y, List.mem_append_left _ hy, hpath'⟩
    · exact ⟨x, by simp, rfl⟩

/-- What comes after an element lies below all that leads to this and to the parent of the new one:
it is at or below the parent, or before the parent and so in its own place. -/
theorem TopOrFollows.between (order : InHierarchyOrder l) (hz : TopOrFollows l z) :
    l.Pairwise fun x y => ∀ p, p <+: x.path → p <+: z.ancestors → p <+: y.path := by
  rcases hz with htop | ⟨earlier, w, between, rfl, hpath, hbetween⟩
  · refine List.pairwise_of_forall fun x y p _ hpz => ?_
    rw [htop, List.prefix_nil] at hpz
    exact hpz ▸ List.nil_prefix
  · rw [← hpath]
    have hbelow : ∀ y ∈ w :: between, w.path <+: y.path := by
      intro y hy
      rcases List.mem_cons.1 hy with rfl | hy
      · exact List.prefix_refl _
      · exact (hbetween y hy).trans y.ancestors_prefix_path
    rw [List.pairwise_append]
    refine ⟨(List.triplewise_append.1 order.contiguous).2.2.2 w List.mem_cons_self, ?_, ?_⟩
    · exact List.pairwise_of_forall_mem_list fun x _ y hy p _ hpw => hpw.trans (hbelow y hy)
    · exact fun x _ y hy p _ hpw => hpw.trans (hbelow y hy)

theorem InHierarchyOrder.concat (order : InHierarchyOrder l) (closed : PrefixClosed l)
    (hz : TopOrFollows l z) (hnew : ∀ x ∈ l, x.path ≠ z.path) : InHierarchyOrder (l ++ [z]) := by
  -- nothing below `z` has been listed, since then `z` would have been
  have hfirst : ∀ x ∈ l, ¬ z.path <+: x.path := by
    intro x hx hzx
    obtain ⟨y, hy, hpath⟩ := closed x hx z.path (List.concat_ne_nil _ _) hzx
    exact hnew y hy hpath
  constructor
  · rw [List.triplewise_append]
    refine ⟨order.contiguous, by simp, by simp, List.forall_mem_singleton.2 ?_⟩
    refine (hz.between order).imp_of_mem fun {x y} hx _ h p hpx hpz => ?_
    rcases Element.prefix_path_iff.1 hpz with hpz | rfl
    · exact h p hpx hpz
    · exact absurd hpx (hfirst x hx)
  · rw [List.pairwise_append]
    refine ⟨order.ancestorFirst, List.pairwise_singleton _ _, fun x hx y hy hyx => ?_⟩
    rw [List.mem_singleton.1 hy] at hyx
    exact absurd hyx (hfirst x hx)

/-! ## Growing lists -/

theorem InPreorder.of_append {l' : List (Element K α)} (h : InPreorder (l ++ l')) :
    InPreorder l := by
  intro before x after hsplit
  refine h before x (after ++ l') ?_
  rw [hsplit, List.append_assoc, List.cons_append]

theorem InPreorder.last (h : InPreorder (l ++ [z])) : TopOrFollows l z := h l z [] rfl

theorem InPreorder.closed (h : InPreorder l) : PrefixClosed l := by
  induction l using List.reverseRecOn with
  | nil => simp [PrefixClosed]
  | append_singleton l z ih => exact (ih h.of_append).concat h.last

/-- What is listed in pre-order, and at no path twice, is in hierarchy order. -/
theorem InPreorder.order (h : InPreorder l) (distinct : (l.map Element.path).Nodup) :
    InHierarchyOrder l := by
  induction l using List.reverseRecOn with
  | nil => exact ⟨.nil, .nil⟩
  | append_singleton l z ih =>
    rw [List.map_append, List.nodup_append] at distinct
    obtain ⟨distinct, -, hnew⟩ := distinct
    refine (ih h.of_append distinct).concat h.of_append.closed h.last fun x hx => ?_
    exact hnew x.path (List.mem_map_of_mem hx) z.path (by simp)

end Hierarchy
