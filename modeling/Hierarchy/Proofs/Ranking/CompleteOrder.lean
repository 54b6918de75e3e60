import Hierarchy.Proofs.Ranking.Consistency
import Hierarchy.Proofs.Ranking.CriteriaSort

/-!
# Rankings of complete paths

Where every prefix of a path has a rank, no two levels tie.  So all such paths stand in one strict
order (`Ranking.OrdersStrictly`): the comparison never fails, it tells any two of them apart, a path
comes before all that it leads to, and where two paths part, everything on the one side comes before
everything on the other.  Sorting by the ranking then leaves nothing of the order in which elements
were listed (`Ranking.covered_order`).
-/

namespace Hierarchy

namespace Ranking

variable {K α : Type} [DecidableEq K] {r : Ranking K} {above a b c : List K} {j k : K}

/-! ## Covered paths do not tie -/

omit [DecidableEq K] in
theorem Covers.mem_paths {p : List K} (h : r.Covers a) (hp : p ≠ []) (hpa : p <+: a) :
    p ∈ r.paths :=
  h p hp hpa

theorem Covers.not_ties (ha : r.Covers a) (hb : r.Covers b) (hja : above ++ [j] <+: a)
    (hkb : above ++ [k] <+: b) : ¬ r.Ties above j k := by
  rintro ⟨hne, hrank⟩
  have hpath := r.rankOf_injective (ha.mem_paths (by simp) hja) (hb.mem_paths (by simp) hkb) hrank
  exact hne (by simpa using hpath)

theorem required_eq {p : List K} (h : p ∈ r.paths) : r.required p = .ok (r.rankOf p) := by
  obtain ⟨i, hi⟩ := Option.isSome_iff_exists.1 (r.isSome_rank?.2 h)
  unfold required rankOf
  rw [hi]
  rfl

theorem compare?_eq (ha : r.Covers a) (hb : r.Covers b) :
    r.compare? a b = .ok (r.compare a b) := by
  unfold compare? compare
  cases hdiverge : firstDivergence a b with
  | none => rfl
  | some level =>
    obtain ⟨above, j, k, -, hja, hkb⟩ := firstDivergence_siblings hdiverge
    have hmem : a.take (level + 1) ∈ r.paths :=
      ha.mem_paths (by simp [hja]) (List.take_prefix _ _)
    have hmem' : b.take (level + 1) ∈ r.paths :=
      hb.mem_paths (by simp [hkb]) (List.take_prefix _ _)
    dsimp only
    rw [required_eq hmem, required_eq hmem']
    rfl

theorem compare_eq_iff (ha : r.Covers a) (hb : r.Covers b) : r.compare a b = .eq ↔ a = b := by
  constructor
  · intro h
    rcases prefix_or_part a b with hab | hba | ⟨above, j, k, hne, hja, hkb⟩
    · by_contra hne
      rw [compare_prefix_lt hab hne] at h
      cases h
    · by_contra hne
      rw [r.compare_swap, compare_prefix_lt hba (Ne.symm hne)] at h
      cases h
    · rw [compare_siblings hne hja hkb] at h
      exact absurd ⟨hne, Std.LawfulEqOrd.eq_of_compare h⟩ (ha.not_ties hb hja hkb)
  · rintro rfl
    exact r.compare_self a

/-! ## The strict order -/

variable (r) in
/-- The comparison puts some paths into one strict order. -/
structure OrdersStrictly (paths : Set (List K)) : Prop where
  /-- The comparison that may fail does not, and gives the same answer. -/
  decided : ∀ a ∈ paths, ∀ b ∈ paths, r.compare? a b = .ok (r.compare a b)
  eq_iff : ∀ a ∈ paths, ∀ b ∈ paths, (r.compare a b = .eq ↔ a = b)
  swap : ∀ a ∈ paths, ∀ b ∈ paths, r.compare b a = (r.compare a b).swap
  trans : ∀ a ∈ paths, ∀ b ∈ paths, ∀ c ∈ paths,
    r.compare a b = .lt → r.compare b c = .lt → r.compare a c = .lt
  /-- A path comes before all that it leads to. -/
  prefixFirst : ∀ a ∈ paths, ∀ b ∈ paths, a <+: b → a ≠ b → r.compare a b = .lt
  /-- Where two paths part, everything on the one side comes before everything on the other. -/
  sides : ∀ a ∈ paths, ∀ b ∈ paths, ∀ level, firstDivergence a b = some level →
    r.compare a b = .lt → ∀ a' b', a.take (level + 1) <+: a' → b.take (level + 1) <+: b' →
      r.compare a' b' = .lt

theorem compare_lt_of_sides {a' b' : List K} {level : Nat}
    (hdiverge : firstDivergence a b = some level) (hab : r.compare a b = .lt)
    (ha : a.take (level + 1) <+: a') (hb : b.take (level + 1) <+: b') :
    r.compare a' b' = .lt := by
  obtain ⟨above, j, k, hne, hja, hkb⟩ := firstDivergence_siblings hdiverge
  have hlevels := compare_siblings (r := r) hne (hja ▸ List.take_prefix _ _)
    (hkb ▸ List.take_prefix _ _)
  rw [hja] at ha
  rw [hkb] at hb
  rw [compare_siblings hne ha hb, ← hlevels, hab]

theorem compare_lt_trans (ha : r.Covers a) (hb : r.Covers b) (hc : r.Covers c)
    (hab : r.compare a b = .lt) (hbc : r.compare b c = .lt) : r.compare a c = .lt := by
  rcases isLE_trans_or_ties (r := r) (by rw [hab]; rfl) (by rw [hbc]; rfl) with hac | hties
  · refine (Ordering.isLE_iff_eq_lt_or_eq_eq.1 hac).resolve_right fun heq => ?_
    obtain rfl := (compare_eq_iff ha hc).1 heq
    rw [r.compare_swap, hab] at hbc
    cases hbc
  · obtain ⟨above, j, k, hlevels, hja, hkb, -⟩ := hties
    exact absurd hlevels (ha.not_ties hb hja hkb)

/-- All paths whose prefixes are listed stand in one strict order, whatever else the ranking lists
or leaves out.  Elements at different such paths are sorted alike, however they are mixed. -/
theorem covered_order (r : Ranking K) :
    r.OrdersStrictly {path | r.Covers path} ∧
      ∀ l l' : List (Element K α), (∀ x ∈ l, r.Covers x.path) → (l.map Element.path).Nodup →
        l.Perm l' → r.sort l = r.sort l' := by
  refine ⟨⟨fun a ha b hb => compare?_eq ha hb, fun a ha b hb => compare_eq_iff ha hb,
    fun a _ b _ => r.compare_swap a b, fun a ha b hb c hc => compare_lt_trans ha hb hc,
    fun a _ b _ => compare_prefix_lt, fun a _ b _ level hdiverge hab a' b' =>
      compare_lt_of_sides hdiverge hab⟩, fun l l' covers distinct perm => ?_⟩
  have hsort : (r.sort l).Perm l := sort_perm l
  have hsort' : (r.sort l').Perm l' := sort_perm l'
  exact eq_of_pairwise_trailLE (fun x hx => covers x (hsort.mem_iff.1 hx))
    ((hsort.map _).nodup_iff.2 distinct) (hsort.trans (perm.trans hsort'.symm))
    (sort_pairwise covers) (sort_pairwise fun x hx => covers x (perm.mem_iff.2 hx))

/-- Lists `a` again behind `b`. -/
def relisted : Ranking Char := ⟨[['a'], ['a', 'x'], ['b'], ['a', 'w'], ['a']]⟩

def relistedLeaves : List (Element Char Unit) :=
  [.plain ⟨['a'], 'x'⟩ .leaf (), .plain ⟨[], 'b'⟩ .leaf (), .plain ⟨['a'], 'w'⟩ .leaf ()]

theorem relisted_order :
    (∀ x ∈ relistedLeaves, relisted.Covers x.path) ∧ (relistedLeaves.map Element.path).Nodup ∧
      relisted.compare ['b'] ['a', 'x'] = .lt ∧ relisted.compare ['a', 'x'] ['a', 'w'] = .lt ∧
      relisted.compare ['b'] ['a', 'w'] = .lt ∧
      relisted.sort relistedLeaves = relisted.sort relistedLeaves.reverse := by
  have hinits : ∀ x ∈ relistedLeaves, ∀ p ∈ x.path.inits, p ≠ [] → p ∈ relisted.paths := by decide
  have covers : ∀ x ∈ relistedLeaves, relisted.Covers x.path := fun x hx p hp hpx =>
    hinits x hx p ((List.mem_inits _ _).2 hpx) hp
  have distinct : (relistedLeaves.map Element.path).Nodup := by decide
  obtain ⟨ordered, hsort⟩ := covered_order (α := Unit) relisted
  have hb : relisted.Covers ['b'] := covers (.plain ⟨[], 'b'⟩ .leaf ()) (by decide)
  have hx : relisted.Covers ['a', 'x'] := covers (.plain ⟨['a'], 'x'⟩ .leaf ()) (by decide)
  have hw : relisted.Covers ['a', 'w'] := covers (.plain ⟨['a'], 'w'⟩ .leaf ()) (by decide)
  have hbx : relisted.compare ['b'] ['a', 'x'] = .lt := by decide
  have hxw : relisted.compare ['a', 'x'] ['a', 'w'] = .lt := by decide
  exact ⟨covers, distinct, hbx, hxw, ordered.trans _ hb _ hx _ hw hbx hxw,
    hsort _ _ covers distinct (List.reverse_perm _).symm⟩

end Ranking

end Hierarchy
