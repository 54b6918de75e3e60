import Hierarchy.FileSource
import Hierarchy.Proofs.Criteria.OneByOne
import Hierarchy.Proofs.Text.Numerals
import Mathlib.Data.List.Pairwise

/-!
# The size column

Cells of the size column are compared as integers of 64 bits with sign, but sizes are natural
numbers of 64 bits.  The sizes from `int64Limit` on are no such integers and compare as texts, so
those of 19 digits, which begin with a nine, come after those of 20 digits, which begin with a one.
This is the order of their `sizeRank` (`numberOrder_toString`).

So sorting by size puts files in the order of the ranks of their sizes.  This is the order of their
sizes exactly if the files do not have sizes of both kinds (`sort_by_size`).
-/

namespace Hierarchy

/-- The least number of 20 digits. -/
def leastLong : Nat := 10000000000000000000

/-- The place of a size in the size column. -/
def sizeRank (n : Nat) : Nat :=
  if Text.int64Limit ≤ n ∧ n < leastLong then n + leastLong else n

section Ranks

variable {m n : Nat}

theorem sizeRank_injective (hm : m < Text.nat64Limit) (hn : n < Text.nat64Limit)
    (h : sizeRank m = sizeRank n) : m = n := by
  unfold sizeRank leastLong Text.int64Limit at h
  unfold Text.nat64Limit at hm hn
  split at h <;> split at h <;> omega

theorem le_of_sizeRank_le (hm : m < Text.nat64Limit) (h : sizeRank m ≤ sizeRank n)
    (hclash : ¬(Text.int64Limit ≤ n ∧ n < leastLong ∧ leastLong ≤ m)) : m ≤ n := by
  unfold sizeRank at h
  unfold leastLong Text.int64Limit at h hclash
  unfold Text.nat64Limit at hm
  split at h <;> split at h <;> omega

theorem sizeRank_lt_of_clash (hm : Text.int64Limit ≤ m) (hm' : m < leastLong)
    (hn : leastLong ≤ n) (hn' : n < Text.nat64Limit) : sizeRank n < sizeRank m := by
  unfold sizeRank
  rw [if_neg fun h => Nat.not_lt.2 hn h.2, if_pos ⟨hm, hm'⟩]
  unfold leastLong Text.int64Limit at *
  unfold Text.nat64Limit at hn'
  omega

/-! ## Sizes that are compared as texts -/

theorem length_of_lt_leastLong (hlow : 1000000000000000000 ≤ n) (hhigh : n < leastLong) :
    (Nat.toDigits 10 n).length = 19 := by
  have hle := (@Nat.length_toDigits_le_iff 10 n 19 (by decide) (by decide)).2 hhigh
  have hgt := mt (@Nat.length_toDigits_le_iff 10 n 18 (by decide) (by decide)).1
    (Nat.not_lt.2 hlow)
  omega

theorem length_of_leastLong_le (hlow : leastLong ≤ n) (hhigh : n < Text.nat64Limit) :
    (Nat.toDigits 10 n).length = 20 := by
  have hle := (@Nat.length_toDigits_le_iff 10 n 20 (by decide) (by decide)).2
    (hhigh.trans (by decide))
  have hgt := mt (@Nat.length_toDigits_le_iff 10 n 19 (by decide) (by decide)).1
    (Nat.not_lt.2 hlow)
  omega

theorem toDigits_lt_of_sizeRank_lt (hm : Text.int64Limit ≤ m) (hm' : m < Text.nat64Limit)
    (hn : Text.int64Limit ≤ n) (hn' : n < Text.nat64Limit) (h : sizeRank m < sizeRank n) :
    Nat.toDigits 10 m < Nat.toDigits 10 n := by
  have hlow : 1000000000000000000 ≤ Text.int64Limit := by decide
  by_cases hmlong : leastLong ≤ m <;> by_cases hnlong : leastLong ≤ n
  · have hmn : m < n := by
      unfold sizeRank at h
      rwa [if_neg fun h => Nat.not_lt.2 hmlong h.2, if_neg fun h => Nat.not_lt.2 hnlong h.2] at h
    refine Text.toDigits_lt_toDigits ?_ hmn
    rw [length_of_leastLong_le hmlong hm', length_of_leastLong_le hnlong hn']
  · -- the first 19 digits decide
    have hnshort := length_of_lt_leastLong (hlow.trans hn) (Nat.not_le.1 hnlong)
    unfold leastLong at hmlong
    unfold Text.nat64Limit at hm'
    have hlength : (Nat.toDigits 10 (m / 10)).length = (Nat.toDigits 10 n).length := by
      rw [hnshort, length_of_lt_leastLong (by omega) (by unfold leastLong; omega)]
    have hfirst : m / 10 < n := by
      unfold Text.int64Limit at hn
      omega
    rw [Nat.toDigits_of_base_le (by decide) (by omega : 10 ≤ m)]
    exact Text.append_lt_of_lt hlength (Text.toDigits_lt_toDigits hlength hfirst) _
  · exact absurd h (Nat.lt_asymm (sizeRank_lt_of_clash hm (Nat.not_le.1 hmlong) hnlong hn'))
  · have hmshort := Nat.not_le.1 hmlong
    have hnshort := Nat.not_le.1 hnlong
    have hmn : m < n := by
      unfold sizeRank at h
      rw [if_pos ⟨hm, hmshort⟩, if_pos ⟨hn, hnshort⟩] at h
      exact Nat.lt_of_add_lt_add_right h
    refine Text.toDigits_lt_toDigits ?_ hmn
    rw [length_of_lt_leastLong (hlow.trans hm) hmshort,
      length_of_lt_leastLong (hlow.trans hn) hnshort]

theorem numberOrder_lt (hm : m < Text.nat64Limit) (hn : n < Text.nat64Limit)
    (h : sizeRank m < sizeRank n) : numberOrder (toString m) (toString n) = .lt := by
  have hle (k : Nat) : k ≤ sizeRank k := by
    unfold sizeRank
    split <;> omega
  have hsmall {k : Nat} (hk : k < Text.int64Limit) : sizeRank k = k := if_neg (by omega)
  unfold numberOrder
  rw [Text.toList_toString, Text.toList_toString, Text.trim_toDigits, Text.trim_toDigits,
    Text.readInt64?_toDigits, Text.readInt64?_toDigits]
  by_cases hnsmall : n < Text.int64Limit
  · have hmn : m < n := (hle m).trans_lt (hsmall hnsmall ▸ h)
    rw [if_pos (hmn.trans hnsmall), if_pos hnsmall]
    exact Std.compare_eq_lt.2 (Int.ofNat_lt.2 hmn)
  · rw [if_neg hnsmall]
    by_cases hmsmall : m < Text.int64Limit
    · rw [if_pos hmsmall]
    · rw [if_neg hmsmall]
      refine compareOfLessAndEq_eq_lt.2 (String.lt_iff.2 ?_)
      rw [Text.toList_toString, Text.toList_toString]
      exact toDigits_lt_of_sizeRank_lt (by omega) hm (by omega) hn h

/-- Sizes are compared by their ranks. -/
theorem numberOrder_toString (hm : m < Text.nat64Limit) (hn : n < Text.nat64Limit) :
    numberOrder (toString m) (toString n) = Ord.compare (sizeRank m) (sizeRank n) := by
  rcases Nat.lt_trichotomy (sizeRank m) (sizeRank n) with hlt | heq | hgt
  · rw [numberOrder_lt hm hn hlt, Std.compare_eq_lt.2 hlt]
  · obtain rfl := sizeRank_injective hm hn heq
    have hself : numberOrder (toString m) (toString m) = .eq := Std.ReflCmp.compare_self
    rw [hself, Nat.compare_eq_eq.2 rfl]
  · have hswap : numberOrder (toString m) (toString n) =
        (numberOrder (toString n) (toString m)).swap := Std.OrientedCmp.eq_swap
    rw [hswap, numberOrder_lt hn hm hgt, Std.compare_eq_gt.2 hgt]
    rfl

end Ranks

namespace FileSource

variable {e x y : FileElement} {xs : List FileElement} {mode : OutputMode} {descending : Bool}

/-- The size of a file, zero if it is not known. -/
def size (e : FileElement) : Nat := (e.item.info.map (·.size)).getD 0

/-- The size of the file is known, and a natural number of 64 bits. -/
def HasSize (e : FileElement) : Prop := ∃ info ∈ e.item.info, info.size < Text.nat64Limit

/-- A size of 19 digits among those that compare as texts, and a size of 20 digits. -/
def SizesClash (xs : List FileElement) : Prop :=
  ∃ x ∈ xs, ∃ y ∈ xs, Text.int64Limit ≤ size x ∧ size x < leastLong ∧ leastLong ≤ size y

/-- Numbers in order, the least or the greatest first. -/
def InOrder (descending : Bool) (m n : Nat) : Prop := if descending then n ≤ m else m ≤ n

/-- `sorted` has the elements of `xs` by the ranks of their sizes, those of one size as they come
in `xs`. -/
structure SortedByRank (descending : Bool) (sorted xs : List FileElement) : Prop where
  perm : sorted.Perm xs
  ranked : sorted.Pairwise fun x y => InOrder descending (sizeRank (size x)) (sizeRank (size y))
  stable : ∀ n, sorted.filter (size · = n) = xs.filter (size · = n)

/-! ## The column -/

/-- The column that the size criterion names. -/
def sizeColumn (descending : Bool) : ColumnOrder := ⟨[⟨2, descending, numberOrder⟩]⟩

theorem parseCriteria_size (descending : Bool) :
    parseCriteria [if descending then "-size" else "size"] = .ok [⟨"size", descending⟩] := by
  cases descending <;> decide +kernel

theorem resolveCriteria_size (s : FileSource) (hmode : mode ≠ .table) :
    resolveCriteria [⟨"size", descending⟩] s.catalog.orders (s.catalog.headers mode) =
      .ok (sizeColumn descending) := by
  have hheaders : (headers mode).map columnName = ["mode", "name", "size", "error"] := by
    cases mode <;> first | contradiction | decide +kernel
  have horder : orderFor [("size", numberOrder)] "size" = numberOrder := by
    have hname : (Text.lowerCase "size" == "size") = true := by decide +kernel
    simp [orderFor, hname]
  change resolveCriteria _ [("size", numberOrder)] (headers mode) = _
  refine resolveCriteria_eq_ok.2 ⟨by simp [hheaders], ?_⟩
  rw [List.map_singleton, columnFor, hheaders, horder]
  rfl

theorem cell_size (hmode : mode ≠ .table) (h : HasSize e) :
    (cells mode e)[2]?.getD "" = toString (size e) := by
  obtain ⟨info, hinfo, -⟩ := h
  have htext : sizeText e = toString (size e) := by
    unfold sizeText size
    rw [Option.mem_def.1 hinfo]
    rfl
  rw [← htext]
  cases mode <;> first | contradiction | rfl

theorem HasSize.size_lt (h : HasSize e) : size e < Text.nat64Limit := by
  obtain ⟨info, hinfo, hlt⟩ := h
  unfold size
  rw [Option.mem_def.1 hinfo]
  exact hlt

theorem compare_sizeColumn (hmode : mode ≠ .table) (hx : HasSize x) (hy : HasSize y) :
    (sizeColumn descending).compare (cells mode x) (cells mode y) =
      let order := Ord.compare (sizeRank (size x)) (sizeRank (size y))
      if descending then order.swap else order := by
  unfold sizeColumn
  rw [ColumnOrder.compare_singleton, ColumnKey.compare]
  dsimp only [ColumnKey.cell]
  rw [cell_size hmode hx, cell_size hmode hy, numberOrder_toString hx.size_lt hy.size_lt]

theorem isLE_sizeColumn (hmode : mode ≠ .table) (hx : HasSize x) (hy : HasSize y) :
    ((sizeColumn descending).compare (cells mode x) (cells mode y)).isLE ↔
      InOrder descending (sizeRank (size x)) (sizeRank (size y)) := by
  rw [compare_sizeColumn hmode hx hy]
  unfold InOrder
  cases descending
  · exact Std.isLE_compare
  · dsimp only
    rw [if_pos rfl, if_pos rfl, Ordering.isLE_swap]
    exact Std.isGE_compare

/-- Only files of one size tie. -/
theorem sizeColumn_eq_iff (hmode : mode ≠ .table) (hx : HasSize x) (hy : HasSize y) :
    (sizeColumn descending).compare (cells mode x) (cells mode y) = .eq ↔ size y = size x := by
  have hrank : Ord.compare (sizeRank (size x)) (sizeRank (size y)) = .eq ↔ size y = size x := by
    rw [Nat.compare_eq_eq]
    exact ⟨fun h => (sizeRank_injective hx.size_lt hy.size_lt h).symm, fun h => by rw [h]⟩
  rw [compare_sizeColumn hmode hx hy, ← hrank]
  cases descending <;> simp

/-! ## Sorting -/

theorem sizeColumn_consistent : (sizeColumn descending).Consistent :=
  ColumnOrder.consistent_of_orders (by simp [sizeColumn])

theorem sortedByRank_sort (descending : Bool) (hmode : mode ≠ .table)
    (hsizes : ∀ e ∈ xs, HasSize e) :
    SortedByRank descending ((sizeColumn descending).sort (cells mode) xs) xs := by
  have sorted : IsStableSort
      (fun x y => (sizeColumn descending).compare (cells mode x) (cells mode y))
      ((sizeColumn descending).sort (cells mode) xs) xs := sizeColumn_consistent.isStableSort_sort
  have hsize {e : FileElement} (he : e ∈ (sizeColumn descending).sort (cells mode) xs) :
      HasSize e := hsizes e (sorted.perm.mem_iff.1 he)
  refine ⟨sorted.perm, ?_, fun n => ?_⟩
  · refine sorted.pairwise.imp_of_mem fun hx hy hle => ?_
    exact (isLE_sizeColumn hmode (hsize hx) (hsize hy)).1 hle
  · by_cases hn : ∃ z ∈ xs, size z = n
    · -- the files of this size are those that tie with one of them
      obtain ⟨z, hz, rfl⟩ := hn
      have hclass := sorted.stable z
      rwa [List.filter_congr fun x hx => decide_eq_decide.2
          (sizeColumn_eq_iff hmode (hsizes z hz) (hsize hx)),
        List.filter_congr fun x hx => decide_eq_decide.2
          (sizeColumn_eq_iff hmode (hsizes z hz) (hsizes x hx))] at hclass
    · have hnone : ∀ x ∈ xs, ¬(decide (size x = n)) = true :=
        fun x hx h => hn ⟨x, hx, of_decide_eq_true h⟩
      rw [List.filter_eq_nil_iff.2 hnone,
        List.filter_eq_nil_iff.2 fun x hx => hnone x (sorted.perm.mem_iff.1 hx)]

/-- The size of `x` is less than that of `y`, and its rank is greater. -/
def Contrary (x y : FileElement) : Prop :=
  size x < size y ∧ sizeRank (size y) < sizeRank (size x)

instance : Std.Symm fun x y => ¬Contrary x y ∧ ¬Contrary y x where
  symm _ _ := And.symm

theorem contrary_of_clash (hlow : Text.int64Limit ≤ size x) (hshort : size x < leastLong)
    (hlong : leastLong ≤ size y) (hy : HasSize y) : Contrary x y :=
  ⟨by omega, sizeRank_lt_of_clash hlow hshort hlong hy.size_lt⟩

/-- Files in the order of their sizes and of their ranks are not contrary. -/
theorem not_contrary_of_inOrder (h : InOrder descending (size x) (size y))
    (hrank : InOrder descending (sizeRank (size x)) (sizeRank (size y))) :
    ¬Contrary x y ∧ ¬Contrary y x := by
  unfold InOrder at h hrank
  unfold Contrary
  cases descending
  · simp only [Bool.false_eq_true, if_false] at h hrank
    omega
  · simp only [if_true] at h hrank
    omega

/-- Where no sizes clash, ranks are in order as sizes are. -/
theorem SortedByRank.ordered_iff {sorted : List FileElement}
    (h : SortedByRank descending sorted xs) (hsizes : ∀ e ∈ xs, HasSize e) :
    sorted.Pairwise (fun x y => InOrder descending (size x) (size y)) ↔ ¬SizesClash xs := by
  constructor
  · rintro hordered ⟨x, hx, y, hy, hlow, hshort, hlong⟩
    have hagree : sorted.Pairwise fun x y => ¬Contrary x y ∧ ¬Contrary y x :=
      (hordered.and h.ranked).imp fun ⟨hle, hrank⟩ => not_contrary_of_inOrder hle hrank
    have hself : ∀ x ∈ sorted, ¬Contrary x x ∧ ¬Contrary x x :=
      fun x _ => and_self_iff.2 fun hx => Nat.lt_irrefl _ hx.1
    have hxy := hagree.forall_of_forall hself (h.perm.mem_iff.2 hx) (h.perm.mem_iff.2 hy)
    exact hxy.1 (contrary_of_clash hlow hshort hlong (hsizes y hy))
  · intro hclash
    refine h.ranked.imp_of_mem fun {x y} hx hy hle => ?_
    have hx := h.perm.mem_iff.1 hx
    have hy := h.perm.mem_iff.1 hy
    unfold InOrder at hle ⊢
    cases descending
    · exact le_of_sizeRank_le (hsizes x hx).size_lt hle fun hgap => hclash ⟨y, hy, x, hx, hgap⟩
    · exact le_of_sizeRank_le (hsizes y hy).size_lt hle fun hgap => hclash ⟨x, hx, y, hy, hgap⟩

/-- Sorting by size, or by size descending, has the files by the ranks of their sizes, those of one
size as they come.  They are in the order of their sizes exactly if no sizes clash. -/
theorem sort_by_size (s : FileSource) (hmode : mode ≠ .table) (descending : Bool)
    (hsizes : ∀ e ∈ xs, HasSize e) :
    ∃ criteria o, parseCriteria [if descending then "-size" else "size"] = .ok criteria ∧
      resolveCriteria criteria s.catalog.orders (s.catalog.headers mode) = .ok o ∧
      SortedByRank descending (o.sort (s.catalog.cells mode) xs) xs ∧
      ((o.sort (s.catalog.cells mode) xs).Pairwise
        (fun x y => InOrder descending (size x) (size y)) ↔ ¬SizesClash xs) := by
  have hsorted := sortedByRank_sort descending hmode hsizes
  exact ⟨_, _, parseCriteria_size _, resolveCriteria_size s hmode, hsorted,
    hsorted.ordered_iff hsizes⟩

/-- A file of the given size as the element for a named path. -/
def blankFile (name : String) (size : Nat) : FileElement :=
  .plain ⟨[], name⟩ .leaf ⟨name, some (.ofNode ⟨.file (.blank size), 0o644, 0⟩)⟩

/-- A source without files. -/
def bareSource : FileSource := ⟨⟨[], [], false⟩, "/", false⟩

/-- Two files of one size, a smaller one whose size has fewer digits but comes later as a text, and
one whose size does not fit into an integer of 64 bits with sign. -/
def mixedFiles : List FileElement :=
  [blankFile "b" 10, blankFile "c" 9, blankFile "a" 10, blankFile "d" leastLong]

theorem mixedFiles_by_size :
    OutputMode.tree ≠ .table ∧ (∀ e ∈ mixedFiles, HasSize e) ∧
      ∃ criteria o, parseCriteria ["-size"] = .ok criteria ∧
        resolveCriteria criteria bareSource.catalog.orders (bareSource.catalog.headers .tree) =
          .ok o ∧
        SortedByRank true (o.sort (bareSource.catalog.cells .tree) mixedFiles) mixedFiles ∧
        (o.sort (bareSource.catalog.cells .tree) mixedFiles).Pairwise
          fun x y => InOrder true (size x) (size y) := by
  have hsizes : ∀ e ∈ mixedFiles, HasSize e := by
    simp only [mixedFiles, List.forall_mem_cons]
    exact ⟨⟨_, rfl, by decide⟩, ⟨_, rfl, by decide⟩, ⟨_, rfl, by decide⟩, ⟨_, rfl, by decide⟩,
      by simp⟩
  have hclash : ¬SizesClash mixedFiles := by
    unfold SizesClash
    decide +kernel
  have hmode : OutputMode.tree ≠ .table := by decide
  obtain ⟨criteria, o, hparse, hresolve, hsorted, hordered⟩ :=
    sort_by_size bareSource hmode true hsizes
  exact ⟨hmode, hsizes, criteria, o, hparse, hresolve, hsorted, hordered.2 hclash⟩

/-- Sizes of 19 and of 20 digits, both too great for an integer of 64 bits with sign. -/
def greatFiles : List FileElement :=
  [blankFile "a" 9223372036854775808, blankFile "b" 10000000000000000000]

/-- The greater file comes first. -/
theorem greatFiles_misplaced :
    (∀ e ∈ greatFiles, HasSize e) ∧
      ∃ criteria o, parseCriteria ["size"] = .ok criteria ∧
        resolveCriteria criteria bareSource.catalog.orders (bareSource.catalog.headers .wide) =
          .ok o ∧
        ¬(o.sort (bareSource.catalog.cells .wide) greatFiles).Pairwise
          fun x y => size x ≤ size y := by
  have hsizes : ∀ e ∈ greatFiles, HasSize e := by
    simp only [greatFiles, List.forall_mem_cons]
    exact ⟨⟨_, rfl, by decide⟩, ⟨_, rfl, by decide⟩, by simp⟩
  have hclash : SizesClash greatFiles := by
    unfold SizesClash
    decide +kernel
  have hmode : OutputMode.wide ≠ .table := by decide
  have hsorted : SortedByRank false ((sizeColumn false).sort (cells .wide) greatFiles) greatFiles :=
    sortedByRank_sort false hmode hsizes
  exact ⟨hsizes, _, _, parseCriteria_size false,
    resolveCriteria_size bareSource hmode, fun h => (hsorted.ordered_iff hsizes).1 h hclash⟩

end FileSource

end Hierarchy
