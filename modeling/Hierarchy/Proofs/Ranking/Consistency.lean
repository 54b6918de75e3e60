import Hierarchy.Proofs.Ranking.RankTrail
import Mathlib.Data.Set.Defs

/-!
# Where the comparison of paths is consistent

Compared the other way round, two paths give the opposite answer (`Ranking.compare_swap`).  But ties
do not pass on: two paths below one level tie with whatever lies below a level that ties with it,
and still the ranking may tell them apart.  Nothing else goes wrong: three paths are compared
consistently unless the one in the middle ties with the two others in this way
(`Ranking.isLE_trans_or_ties`).  So a set of paths is compared consistently exactly if no path of it
ties with two that the ranking tells apart (`Ranking.compare_consistent_iff`).

No ranking is consistent on all paths, since levels deeper than all that it lists always tie
(`Ranking.not_consistentOn_univ`).
-/

namespace Hierarchy

namespace Ranking

variable {K : Type} [DecidableEq K] {r : Ranking K} {start above a b c : List K} {j k : K}

/-! ## Paths that part -/

/-- Two paths part, or one leads to the other. -/
theorem prefix_or_part (a b : List K) :
    a <+: b ∨ b <+: a ∨ ∃ above j k, j ≠ k ∧ above ++ [j] <+: a ∧ above ++ [k] <+: b := by
  induction a generalizing b with
  | nil => exact .inl List.nil_prefix
  | cons x a ih =>
    cases b with
    | nil => exact .inr (.inl List.nil_prefix)
    | cons y b =>
      by_cases hxy : x = y
      · subst hxy
        rcases ih b with hab | hba | ⟨above, j, k, hne, ha, hb⟩
        · exact .inl (List.cons_prefix_cons.2 ⟨rfl, hab⟩)
        · exact .inr (.inl (List.cons_prefix_cons.2 ⟨rfl, hba⟩))
        · exact .inr (.inr ⟨x :: above, j, k, hne, List.cons_prefix_cons.2 ⟨rfl, ha⟩,
            List.cons_prefix_cons.2 ⟨rfl, hb⟩⟩)
      · exact .inr (.inr ⟨[], x, y, hxy, by simp, by simp⟩)

theorem compareFrom_swap : r.compareFrom start b a = (r.compareFrom start a b).swap := by
  induction a generalizing start b with
  | nil =>
    cases b with
    | nil => rfl
    | cons y b => exact Std.OrientedOrd.eq_swap
  | cons x a ih =>
    cases b with
    | nil => exact Std.OrientedOrd.eq_swap
    | cons y b =>
      by_cases hxy : x = y
      · subst hxy
        rw [compareFrom_cons_self, compareFrom_cons_self, ih]
      · rw [compareFrom_cons_ne hxy, compareFrom_cons_ne (Ne.symm hxy)]
        exact Std.OrientedOrd.eq_swap

theorem compare_swap (r : Ranking K) (a b : List K) : r.compare b a = (r.compare a b).swap := by
  rw [← compareFrom_nil, ← compareFrom_nil, compareFrom_swap]

theorem compare_self (r : Ranking K) (a : List K) : r.compare a a = .eq := by
  have h := r.compare_swap a a
  cases hcompare : r.compare a a with
  | eq => rfl
  | lt => rw [hcompare] at h; cases h
  | gt => rw [hcompare] at h; cases h

theorem compareFrom_append (h : b ≠ []) : r.compareFrom start a (a ++ b) = .lt := by
  induction a generalizing start with
  | nil =>
    obtain ⟨k, b, rfl⟩ := List.exists_cons_of_ne_nil h
    rfl
  | cons x a ih => rw [List.cons_append, compareFrom_cons_self, ih]

/-- A path comes before all that it leads to. -/
theorem compare_prefix_lt (h : a <+: b) (hne : a ≠ b) : r.compare a b = .lt := by
  obtain ⟨rest, rfl⟩ := h
  rw [← compareFrom_nil, compareFrom_append]
  rintro rfl
  exact hne (List.append_nil a).symm

theorem compareFrom_siblings (h : j ≠ k) (ha : above ++ [j] <+: a) (hb : above ++ [k] <+: b) :
    r.compareFrom start a b =
      Ord.compare (r.rankOf (start ++ above ++ [j])) (r.rankOf (start ++ above ++ [k])) := by
  obtain ⟨a, rfl⟩ := ha
  obtain ⟨b, rfl⟩ := hb
  induction above generalizing start with
  | nil => simpa using compareFrom_cons_ne h
  | cons x above ih =>
    rw [List.cons_append, List.cons_append, List.cons_append, List.cons_append,
      compareFrom_cons_self, ih]
    simp

/-- Below two levels with the same ancestors the ranks of these levels decide. -/
theorem compare_siblings (h : j ≠ k) (ha : above ++ [j] <+: a) (hb : above ++ [k] <+: b) :
    r.compare a b = Ord.compare (r.rankOf (above ++ [j])) (r.rankOf (above ++ [k])) := by
  rw [← compareFrom_nil, compareFrom_siblings h ha hb, List.nil_append]

/-! ## Ties -/

/-- The ranking does not decide between two levels below the same ancestors: neither of them is
listed, or one is not and the other is the first. -/
def Ties (r : Ranking K) (above : List K) (j k : K) : Prop :=
  j ≠ k ∧ r.rankOf (above ++ [j]) = r.rankOf (above ++ [k])

instance (r : Ranking K) (above : List K) (j k : K) : Decidable (r.Ties above j k) :=
  inferInstanceAs (Decidable (j ≠ k ∧ r.rankOf (above ++ [j]) = r.rankOf (above ++ [k])))

variable (r) in
/-- Below one of two levels lies `b`, below the other lie `a` and `c`, and the levels tie. -/
def TiesWithBoth (b a c : List K) : Prop :=
  ∃ above j k, r.Ties above j k ∧ above ++ [j] <+: a ∧ above ++ [k] <+: b ∧ above ++ [j] <+: c

theorem compare_eq_of_ties (h : r.Ties above j k) (ha : above ++ [j] <+: a)
    (hb : above ++ [k] <+: b) : r.compare a b = .eq := by
  rw [compare_siblings h.1 ha hb, h.2, Std.compare_self]

theorem compareFrom_cons_nil : r.compareFrom start (k :: a) [] = .gt := rfl

/-- Seen from `start`, two comparisons pass on to a third, or the path in the middle ties. -/
theorem compareFrom_isLE_or_ties (hab : (r.compareFrom start a b).isLE)
    (hbc : (r.compareFrom start b c).isLE) :
    (r.compareFrom start a c).isLE ∨
      ∃ above j k, r.Ties (start ++ above) j k ∧ above ++ [j] <+: a ∧ above ++ [k] <+: b ∧
        above ++ [j] <+: c := by
  induction a generalizing start b c with
  | nil => cases c <;> exact .inl rfl
  | cons x a ih =>
    obtain ⟨y, b, rfl⟩ : ∃ y b', b = y :: b' := by
      cases b with
      | nil => simp [compareFrom_cons_nil] at hab
      | cons y b => exact ⟨y, b, rfl⟩
    obtain ⟨z, c, rfl⟩ : ∃ z c', c = z :: c' := by
      cases c with
      | nil => simp [compareFrom_cons_nil] at hbc
      | cons z c => exact ⟨z, c, rfl⟩
    by_cases hxy : x = y
    · subst hxy
      by_cases hxz : x = z
      · -- the three go on together
        subst hxz
        rw [compareFrom_cons_self] at hab hbc ⊢
        rcases ih hab hbc with hac | ⟨above, j, k, hties, ha, hb, hc⟩
        · exact .inl hac
        · refine .inr ⟨x :: above, j, k, by simpa using hties, ?_, ?_, ?_⟩ <;>
            exact List.cons_prefix_cons.2 ⟨rfl, by assumption⟩
      · rw [compareFrom_cons_ne hxz] at hbc ⊢
        exact .inl hbc
    · by_cases hyz : y = z
      · subst hyz
        rw [compareFrom_cons_ne hxy] at hab ⊢
        exact .inl hab
      · rw [compareFrom_cons_ne hxy, Nat.isLE_compare] at hab
        rw [compareFrom_cons_ne hyz, Nat.isLE_compare] at hbc
        by_cases hxz : x = z
        · -- `b` lies apart from `a` and `c`, which go on together
          subst hxz
          have hties : r.Ties start x y := ⟨hxy, Nat.le_antisymm hab hbc⟩
          exact .inr ⟨[], x, y, by simpa using hties, by simp, by simp, by simp⟩
        · rw [compareFrom_cons_ne hxz, Nat.isLE_compare]
          exact .inl (Nat.le_trans hab hbc)

theorem isLE_trans_or_ties (hab : (r.compare a b).isLE) (hbc : (r.compare b c).isLE) :
    (r.compare a c).isLE ∨ r.TiesWithBoth b a c := by
  rw [← compareFrom_nil] at hab hbc ⊢
  exact compareFrom_isLE_or_ties hab hbc

/-! ## Consistency -/

variable (r) in
/-- What is not behind a path is not behind any path that this one is not behind. -/
def ConsistentOn (paths : Set (List K)) : Prop :=
  ∀ a ∈ paths, ∀ b ∈ paths, ∀ c ∈ paths,
    (r.compare a b).isLE → (r.compare b c).isLE → (r.compare a c).isLE

theorem ConsistentOn.compare_eq {paths : Set (List K)} (consistent : r.ConsistentOn paths)
    (ha : a ∈ paths) (hb : b ∈ paths) (hc : c ∈ paths) (hties : r.TiesWithBoth b a c) :
    r.compare a c = .eq := by
  obtain ⟨above, j, k, hlevels, hja, hkb, hjc⟩ := hties
  have hab := compare_eq_of_ties hlevels hja hkb
  have hcb := compare_eq_of_ties hlevels hjc hkb
  have hba : r.compare b a = .eq := by rw [r.compare_swap, hab]; rfl
  have hbc : r.compare b c = .eq := by rw [r.compare_swap, hcb]; rfl
  -- `b` ties with both, so `a` and `c` may stand either way round
  have hac := consistent a ha b hb c hc (by rw [hab]; rfl) (by rw [hbc]; rfl)
  have hca := consistent c hc b hb a ha (by rw [hcb]; rfl) (by rw [hba]; rfl)
  rw [r.compare_swap, Ordering.isLE_swap, Ordering.isGE_iff_ne_lt] at hca
  exact (Ordering.isLE_iff_eq_lt_or_eq_eq.1 hac).resolve_left hca

/-- Comparing the other way round gives the opposite answer for all paths.  On a set of paths the
comparison is consistent exactly if it does not tell apart any two of them that tie with a third
because of one level. -/
theorem compare_consistent_iff (r : Ranking K) (paths : Set (List K)) :
    (∀ a b, r.compare b a = (r.compare a b).swap) ∧
      (r.ConsistentOn paths ↔
        ∀ a ∈ paths, ∀ b ∈ paths, ∀ c ∈ paths, r.TiesWithBoth b a c → r.compare a c = .eq) := by
  refine ⟨r.compare_swap, fun consistent a ha b hb c hc => consistent.compare_eq ha hb hc,
    fun hties a ha b hb c hc hab hbc => ?_⟩
  rcases isLE_trans_or_ties hab hbc with hac | htied
  · exact hac
  · rw [hties a ha b hb c hc htied]
    rfl

/-- The levels of `a` and `b` have no rank. -/
def parted : Ranking Char := ⟨[['a', 'x'], ['b', 'y'], ['a', 'z']]⟩

/-- All three paths are listed, and `b/y` ties with both others, of which `a/x` comes first. -/
theorem parted_inconsistent :
    parted.compare ['a', 'z'] ['b', 'y'] = .eq ∧ parted.compare ['b', 'y'] ['a', 'x'] = .eq ∧
      parted.compare ['a', 'z'] ['a', 'x'] = .gt ∧
      ¬ parted.ConsistentOn {path | path ∈ parted.paths} := by
  refine ⟨by decide, by decide, by decide, fun consistent => ?_⟩
  have listed : ∀ path ∈ parted.paths, path ∈ {path | path ∈ parted.paths} := fun _ h => h
  have h := consistent ['a', 'z'] (listed _ (by decide)) ['b', 'y'] (listed _ (by decide))
    ['a', 'x'] (listed _ (by decide)) (by decide) (by decide)
  exact absurd h (by decide)

/-! ## All paths -/

theorem rankOf_eq_zero {path : List K} (h : path ∉ r.paths) : r.rankOf path = 0 := by
  unfold rankOf rank?
  rw [lastIndex?_eq_none h]
  rfl

/-- With two keys no ranking compares all paths consistently. -/
theorem not_consistentOn_univ (r : Ranking K) (h : j ≠ k) : ¬ r.ConsistentOn Set.univ := by
  intro consistent
  -- below a path that is longer than all that is listed, nothing has a rank
  have hunlisted : ∀ key, r.paths.flatten ++ [key] ∉ r.paths := by
    intro key hmem
    have hlength := (List.sublist_flatten_of_mem hmem).length_le
    rw [List.length_append, List.length_singleton] at hlength
    omega
  have hties : r.Ties r.paths.flatten j k :=
    ⟨h, by rw [rankOf_eq_zero (hunlisted j), rankOf_eq_zero (hunlisted k)]⟩
  have hdeeper : r.paths.flatten ++ [j] <+: r.paths.flatten ++ [j] ++ [j] := List.prefix_append _ _
  have heq := consistent.compare_eq trivial trivial trivial
    ⟨_, j, k, hties, List.prefix_refl _, List.prefix_refl _, hdeeper⟩
  rw [compare_prefix_lt hdeeper (by simp)] at heq
  cases heq

end Ranking

end Hierarchy
