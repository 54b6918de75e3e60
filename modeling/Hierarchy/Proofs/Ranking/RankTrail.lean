import Hierarchy.Proofs.HierarchyOrder
import Hierarchy.Ranking

/-!
# Paths as sequences of ranks

The rank trail of a path is the sequence of the ranks of its prefixes, shortest first.  Where every
prefix has a rank (`Covers`), a path is known by its rank trail, and the ranking compares two paths
as their rank trails compare lexicographically (`compare_eq_rankTrail`).  So the comparison is a
linear order there, and what lies below a path is what begins with its rank trail.
-/

namespace Hierarchy

/-! ## Last places -/

section LastIndex

variable {β : Type} [DecidableEq β] {x : β} {l : List β} {i : Nat}

theorem isSome_lastIndex? : (lastIndex? x l).isSome ↔ x ∈ l := by
  induction l with
  | nil => simp [lastIndex?]
  | cons y l ih =>
    rw [lastIndex?, List.mem_cons, ← ih]
    cases lastIndex? x l with
    | some m => simp
    | none =>
      by_cases hyx : y = x
      · simp [hyx]
      · simp [hyx, Ne.symm hyx]

/-- Found at the last place: it stands there, and nowhere behind. -/
theorem lastIndex?_spec (h : lastIndex? x l = some i) :
    l[i]? = some x ∧ ∀ j, i < j → l[j]? ≠ some x := by
  induction l generalizing i with
  | nil => cases h
  | cons y l ih =>
    rw [lastIndex?] at h
    split at h
    · next m hm =>
      cases h
      obtain ⟨hx, hbehind⟩ := ih hm
      refine ⟨hx, fun j hj => ?_⟩
      cases j with
      | zero => omega
      | succ j => exact hbehind j (by omega)
    · next hnone =>
      split at h
      · next hyx =>
        cases h
        refine ⟨by rw [hyx]; rfl, fun j hj hxj => ?_⟩
        cases j with
        | zero => omega
        | succ j =>
          have hmem : x ∈ l := List.mem_of_getElem? (i := j) (by simpa using hxj)
          rw [← isSome_lastIndex?, hnone] at hmem
          cases hmem
      · cases h

theorem lastIndex?_eq_none (h : x ∉ l) : lastIndex? x l = none := by
  rw [← Option.not_isSome_iff_eq_none, isSome_lastIndex?]
  exact h

end LastIndex

namespace Ranking

variable {K : Type} (r : Ranking K)

/-! ## Covered paths -/

/-- Every path that leads from `start` on along `keys` has a rank. -/
def CoversFrom (start keys : List K) : Prop :=
  ∀ p, p ≠ [] → p <+: keys → start ++ p ∈ r.paths

/-- Every prefix of the path has a rank. -/
def Covers (path : List K) : Prop := r.CoversFrom [] path

section Covers

variable {r} {start a p : List K} {k : K}

theorem CoversFrom.head (h : r.CoversFrom start (k :: a)) : start ++ [k] ∈ r.paths :=
  h [k] (by simp) (by simp)

theorem CoversFrom.tail (h : r.CoversFrom start (k :: a)) : r.CoversFrom (start ++ [k]) a := by
  intro p _ hpa
  rw [List.append_assoc]
  exact h ([k] ++ p) (by simp) (by simpa using hpa)

theorem CoversFrom.mono (h : r.CoversFrom start a) (hpa : p <+: a) : r.CoversFrom start p :=
  fun q hq hqp => h q hq (hqp.trans hpa)

end Covers

variable [DecidableEq K]

theorem isSome_rank? {path : List K} : (r.rank? path).isSome ↔ path ∈ r.paths := isSome_lastIndex?

/-- Different paths have different ranks. -/
theorem rank?_injective {p q : List K} {i : Nat} (hp : r.rank? p = some i)
    (hq : r.rank? q = some i) : p = q := by
  have h := (lastIndex?_spec hp).1
  rw [(lastIndex?_spec hq).1] at h
  exact (Option.some.inj h).symm

/-- The rank of a path, 0 if it has none. -/
def rankOf (path : List K) : Nat := (r.rank? path).getD 0

theorem rankOf_injective {p q : List K} (hp : p ∈ r.paths) (hq : q ∈ r.paths)
    (h : r.rankOf p = r.rankOf q) : p = q := by
  obtain ⟨i, hi⟩ := Option.isSome_iff_exists.1 (r.isSome_rank?.2 hp)
  obtain ⟨j, hj⟩ := Option.isSome_iff_exists.1 (r.isSome_rank?.2 hq)
  rw [rankOf, rankOf, hi, hj] at h
  cases h
  exact r.rank?_injective hi hj

/-! ## Rank trails -/

/-- The ranks of the paths that lead from `start` on along `keys`. -/
def rankTrail (start : List K) : List K → List Nat
  | [] => []
  | k :: keys => r.rankOf (start ++ [k]) :: rankTrail (start ++ [k]) keys

variable {r} {start a b p : List K} {k j : K}

theorem length_rankTrail : (r.rankTrail start a).length = a.length := by
  induction a generalizing start with
  | nil => rfl
  | cons k a ih => rw [rankTrail, List.length_cons, ih, List.length_cons]

theorem rankTrail_append :
    r.rankTrail start (a ++ b) = r.rankTrail start a ++ r.rankTrail (start ++ a) b := by
  induction a generalizing start with
  | nil => simp [rankTrail]
  | cons k a ih => simp [rankTrail, ih]

theorem rankTrail_prefix (h : p <+: a) : r.rankTrail start p <+: r.rankTrail start a := by
  obtain ⟨q, rfl⟩ := h
  rw [rankTrail_append]
  exact List.prefix_append _ _

/-- A path that begins with the rank trail of another begins with the other. -/
theorem prefix_of_rankTrail_prefix (hp : r.CoversFrom start p) (ha : r.CoversFrom start a)
    (h : r.rankTrail start p <+: r.rankTrail start a) : p <+: a := by
  induction p generalizing start a with
  | nil => exact List.nil_prefix
  | cons k p ih =>
    cases a with
    | nil => simp [rankTrail] at h
    | cons j a =>
      obtain ⟨hrank, htrail⟩ := List.cons_prefix_cons.1 h
      have hkj : k = j := by simpa using r.rankOf_injective hp.head ha.head hrank
      subst hkj
      exact List.cons_prefix_cons.2 ⟨rfl, ih hp.tail ha.tail htrail⟩

/-! ## Comparing rank trails -/

variable (r) in
/-- The comparison of two paths that lead on from `start`. -/
def compareFrom (start a b : List K) : Ordering :=
  match firstDivergence a b with
  | some level =>
    Ord.compare (r.rankOf (start ++ a.take (level + 1))) (r.rankOf (start ++ b.take (level + 1)))
  | none => Ord.compare a.length b.length

theorem compareFrom_nil : r.compareFrom [] a b = r.compare a b := rfl

theorem compareFrom_cons_self :
    r.compareFrom start (k :: a) (k :: b) = r.compareFrom (start ++ [k]) a b := by
  unfold compareFrom
  rw [firstDivergence, if_pos rfl]
  cases firstDivergence a b with
  | none => simp [Nat.compare_eq_ite_lt]
  | some level => simp

theorem compareFrom_cons_ne (h : k ≠ j) :
    r.compareFrom start (k :: a) (j :: b) =
      Ord.compare (r.rankOf (start ++ [k])) (r.rankOf (start ++ [j])) := by
  unfold compareFrom
  rw [firstDivergence, if_neg h]
  rfl

theorem compareFrom_eq_rankTrail (ha : r.CoversFrom start a) (hb : r.CoversFrom start b) :
    r.compareFrom start a b = Ord.compare (r.rankTrail start a) (r.rankTrail start b) := by
  induction a generalizing start b with
  | nil => cases b <;> rfl
  | cons k a ih =>
    cases b with
    | nil => rfl
    | cons j b =>
      by_cases hkj : k = j
      · subst hkj
        rw [compareFrom_cons_self, ih ha.tail hb.tail, rankTrail, rankTrail,
          List.compare_cons_cons, Std.compare_self, Ordering.eq_then]
      · have hne : r.rankOf (start ++ [k]) ≠ r.rankOf (start ++ [j]) := fun h =>
          hkj (by simpa using r.rankOf_injective ha.head hb.head h)
        have hcompare : Ord.compare (r.rankOf (start ++ [k])) (r.rankOf (start ++ [j])) ≠ .eq :=
          fun h => hne (Std.LawfulEqOrd.eq_of_compare h)
        rw [compareFrom_cons_ne hkj, rankTrail, rankTrail, List.compare_cons_cons]
        cases h : Ord.compare (r.rankOf (start ++ [k])) (r.rankOf (start ++ [j])) with
        | eq => exact absurd h hcompare
        | lt => rfl
        | gt => rfl

/-- Where every prefix has a rank, paths compare as their rank trails. -/
theorem compare_eq_rankTrail (ha : r.Covers a) (hb : r.Covers b) :
    r.compare a b = Ord.compare (r.rankTrail [] a) (r.rankTrail [] b) := by
  rw [← compareFrom_nil, compareFrom_eq_rankTrail ha hb]

end Ranking

end Hierarchy
