import Mathlib.Data.List.Perm.Basic

/-!
# Lists with the same keys

Lists whose elements have the same keys, each equally often, agree in what depends on the key alone
(`flatMap_perm_of_map_perm`).  They are the same up to order if the key and one more property tell
their elements (`perm_of_filter_map_perm`).
-/

namespace Hierarchy

variable {β γ κ : Type} {k : β → κ} {l l' : List β}

/-- What depends on a key alone is the same for lists with the same keys. -/
theorem flatMap_perm_of_map_perm {f : β → List γ} (h : (l.map k).Perm (l'.map k))
    (hf : ∀ x ∈ l, ∀ y ∈ l', k x = k y → (f x).Perm (f y)) :
    (l.flatMap f).Perm (l'.flatMap f) := by
  induction l generalizing l' with
  | nil =>
    obtain rfl : l' = [] := List.map_eq_nil_iff.1 h.symm.eq_nil
    exact .refl _
  | cons x l ih =>
    have hmem : k x ∈ l'.map k := h.mem_iff.1 List.mem_cons_self
    obtain ⟨y, hy, hyx⟩ := List.mem_map.1 hmem
    obtain ⟨before, after, rfl⟩ := List.append_of_mem hy
    have hmiddle : (before ++ y :: after).Perm (y :: (before ++ after)) := List.perm_middle
    have hrest : (l.map k).Perm ((before ++ after).map k) := by
      have hkeys := h.trans (hmiddle.map k)
      rw [List.map_cons, List.map_cons, hyx] at hkeys
      exact hkeys.cons_inv
    have hrests := ih hrest fun a ha b hb =>
      hf a (List.mem_cons_of_mem _ ha) b (hmiddle.mem_iff.2 (List.mem_cons_of_mem _ hb))
    refine .trans ?_ (hmiddle.flatMap_right f).symm
    exact (hf x List.mem_cons_self y hy hyx.symm).append hrests

theorem map_perm_of_map_perm {f : β → γ} (h : (l.map k).Perm (l'.map k))
    (hf : ∀ x ∈ l, ∀ y ∈ l', k x = k y → f x = f y) : (l.map f).Perm (l'.map f) := by
  rw [List.map_eq_flatMap, List.map_eq_flatMap]
  exact flatMap_perm_of_map_perm h fun x hx y hy hxy => by rw [hf x hx y hy hxy]

/-- Lists are the same up to order if their keys are and a key tells an element. -/
theorem perm_of_map_perm (h : (l.map k).Perm (l'.map k))
    (hk : ∀ x ∈ l, ∀ y ∈ l', k x = k y → x = y) : l.Perm l' := by
  simpa using map_perm_of_map_perm (f := id) h hk

/-- Lists are the same up to order if their keys are, those of the elements with some property and
all, and if the key and this property tell an element. -/
theorem perm_of_filter_map_perm {p : β → Bool} (h : (l.map k).Perm (l'.map k))
    (hp : ((l.filter p).map k).Perm ((l'.filter p).map k))
    (hk : ∀ x ∈ l, ∀ y ∈ l', k x = k y → p x = p y → x = y) : l.Perm l' := by
  have hothers : ((l.filter (!p ·)).map k).Perm ((l'.filter (!p ·)).map k) := by
    have hl := (List.filter_append_perm p l).map k
    have hl' := (List.filter_append_perm p l').map k
    rw [List.map_append] at hl hl'
    rw [← List.perm_append_left_iff ((l.filter p).map k)]
    exact hl.trans (h.trans (hl'.symm.trans (hp.symm.append_right _)))
  have hwith : (l.filter p).Perm (l'.filter p) := by
    refine perm_of_map_perm hp fun x hx y hy hxy => ?_
    rw [List.mem_filter] at hx hy
    exact hk x hx.1 y hy.1 hxy (hx.2.trans hy.2.symm)
  have hwithout : (l.filter (!p ·)).Perm (l'.filter (!p ·)) := by
    refine perm_of_map_perm hothers fun x hx y hy hxy => ?_
    rw [List.mem_filter] at hx hy
    exact hk x hx.1 y hy.1 hxy (Bool.not_inj (hx.2.trans hy.2.symm))
  exact (List.filter_append_perm p l).symm.trans
    ((hwith.append hwithout).trans (List.filter_append_perm p l'))

end Hierarchy
