import Hierarchy.FileSource
import Hierarchy.Proofs.Exploration.Limits
import Hierarchy.Proofs.Exploration.Placement

/-!
# Explorations of file trees

Links make infinitely many paths, and one directory may stand at many of them.  Explorations of
files come to an end all the same, since an element that can be expanded leads to a place
(`exists_place_of_expandable`), places are finitely many, and each is listed at most once.  What is
emitted is the root and one element for each entry of each directory that is listed, and an element
is marked as a cycle exactly if a path above it leads to its place (`explore_lists_once`).
-/

namespace Hierarchy

/-! ## Places and nodes -/

namespace FileTree

variable {t : FileTree} {p : Place} {n : FileNode} {path : String}

theorem mem_nodes_of_node? (h : t.node? p = some n) : (p, n) ∈ t.nodes := by
  obtain ⟨before, after, hnodes, -⟩ := List.lookup_eq_some_iff.1 h
  rw [hnodes]
  exact List.mem_append_right _ List.mem_cons_self

theorem find_eq_ok_iff :
    t.find path = .ok n ↔ ∃ p, t.resolve path true = .ok p ∧ t.node? p = some n := by
  unfold find
  cases hresolve : t.resolve path true with
  | error cause => simp [bind, Except.bind]
  | ok p => cases hn : t.node? p <;> simp [bind, Except.bind, hn, pure, Except.pure]

/-- What a directory lists. -/
theorem list_of_directory (hresolve : t.resolve path true = .ok p) (hn : t.node? p = some n)
    (hdirectory : n.isDirectory = true) :
    t.list path = if t.mayRead n then .ok (t.names p) else .error .permissionDenied := by
  unfold list
  rw [hresolve]
  dsimp only [bind, Except.bind]
  rw [hn]
  dsimp only
  rw [hdirectory]
  rfl

end FileTree

namespace FileSource

variable (s : FileSource)

/-- The place that a sequence of keys leads to, all links followed. -/
def place? (keys : Trail String) : Option Place := (s.tree.locate (s.pathOf keys) true).toOption

variable {s} {ancestors keys : Trail String} {name : String} {e root : FileElement} {p : Place}
  {revisits : Revisits}

theorem place?_eq_some : s.place? keys = some p ↔ s.tree.locate (s.pathOf keys) true = .ok p := by
  unfold place?
  cases s.tree.locate (s.pathOf keys) true <;> simp [Except.toOption]

theorem idOf_of_place (h : s.place? keys = some p) : s.idOf (s.pathOf keys) = .resolved p := by
  unfold idOf
  rw [place?_eq_some.1 h]

/-! ## Elements of files -/

theorem position_element : (s.element ancestors name).position = ⟨ancestors, name⟩ := by
  unfold element
  dsimp only
  split <;> rfl

variable (s) in
/-- The element is the one for its keys. -/
def IsElement (e : FileElement) : Prop := e = s.element e.ancestors e.key

theorem isElement_element : s.IsElement (s.element ancestors name) := by
  have hposition : (s.element ancestors name).position = ⟨ancestors, name⟩ := position_element
  unfold IsElement Element.ancestors Element.key
  rw [hposition]

theorem IsElement.item_path (h : s.IsElement e) : e.item.path = s.pathOf e.path := by
  have hitem : (s.element e.ancestors e.key).item.path = s.pathOf (e.ancestors ++ [e.key]) := by
    unfold element
    dsimp only
    split <;> rfl
  rwa [← h, ← e.path_eq] at hitem

theorem IsElement.kind_ne (h : s.IsElement e) : e.kind ≠ .inserted := by
  rw [h]
  unfold element
  dsimp only
  split
  · next node _ => cases node.isDirectory <;> simp [Element.plain]
  · simp [Element.plain, Element.fail]

/-- What can be expanded is a directory. -/
theorem IsElement.exists_place (h : s.IsElement e) (hexpandable : e.expandable = true) :
    ∃ p n, s.place? e.path = some p ∧ s.tree.resolve e.item.path true = .ok p ∧
      s.tree.node? p = some n ∧ n.isDirectory = true := by
  have hpath := h.item_path
  rw [h] at hexpandable
  unfold element at hexpandable
  dsimp only at hexpandable
  split at hexpandable
  · next n hfind =>
    obtain ⟨p, hresolve, hn⟩ := FileTree.find_eq_ok_iff.1 hfind
    refine ⟨p, n, place?_eq_some.2 (FileTree.locate_of_resolve hresolve), ?_, hn, ?_⟩
    · rw [hpath]
      exact hresolve
    · cases hdirectory : n.isDirectory with
      | true => rfl
      | false =>
        rw [hdirectory] at hexpandable
        cases hexpandable
  · cases hexpandable

theorem mem_children {cs : List FileElement} (h : s.catalog.children e = .ok cs) :
    ∀ c ∈ cs, s.IsElement c ∧ c.ancestors = e.path := by
  have h : s.children e = .ok cs := h
  unfold children at h
  split at h
  · cases h
    intro c hc
    obtain ⟨n, -, rfl⟩ := List.mem_map.1 hc
    exact ⟨isElement_element, congrArg Position.ancestors position_element⟩
  · cases h

theorem IsElement.reaches (h : s.IsElement root) (reaches : s.catalog.Reaches root e) :
    s.IsElement e := by
  cases reaches with
  | root => exact h
  | child _ _ hcs hc => exact (mem_children hcs _ hc).1

/-- A place is listed in the order of its names, unless it may not be read. -/
theorem children_eq {n : FileNode} (hresolve : s.tree.resolve e.item.path true = .ok p)
    (hn : s.tree.node? p = some n) (hdirectory : n.isDirectory = true) :
    s.catalog.children e =
      if s.tree.mayRead n then
        .ok ((s.tree.names p).map fun name => s.element e.path (Text.ofUtf8 name))
      else .error (.listing (e.position.text "/")
        ("IO error for operation on " ++ e.item.path ++ ": " ++
          SystemError.permissionDenied.text)) := by
  change s.children e = _
  unfold children
  rw [FileTree.list_of_directory hresolve hn hdirectory]
  cases s.tree.mayRead n <;> rfl

/-! ## Bounds -/

/-- The places of directories are all that can be expanded. -/
theorem catalog_bounded (hroot : s.IsElement root) : s.catalog.Bounded root := by
  refine ⟨(s.tree.nodes.filter (·.2.isDirectory)).map (.resolved ·.1), ?_, ?_⟩
  · rw [List.length_map, ← List.countP_eq_length_filter]
    exact Nat.le_refl _
  · intro e cs reaches hexpandable _
    have helement := hroot.reaches reaches
    obtain ⟨p, n, hplace, -, hn, hdirectory⟩ := helement.exists_place hexpandable
    change s.idOf e.item.path ∈ _
    rw [helement.item_path, idOf_of_place hplace]
    refine List.mem_map.2 ⟨(p, n), List.mem_filter.2 ⟨?_, hdirectory⟩, rfl⟩
    exact FileTree.mem_nodes_of_node? hn

/-! ## Cycles -/

theorem onCycle_eq :
    s.catalog.onCycle e = (List.range e.ancestors.length).any fun n =>
      (s.place? (e.ancestors.take (n + 1))).any (s.idOf e.item.path == .resolved ·) := by
  change s.onCycle e = _
  unfold onCycle place?
  dsimp only
  congr 1
  funext n
  cases s.tree.locate (s.pathOf (e.ancestors.take (n + 1))) true <;> rfl

/-- An element is on a cycle if a path above it leads to its place. -/
theorem onCycle_iff (helement : s.IsElement e) (hplace : s.place? e.path = some p) :
    s.catalog.onCycle e = true ↔
      ∃ keys, keys ≠ [] ∧ keys <+: e.ancestors ∧ s.place? keys = some p := by
  have hid : s.idOf e.item.path = .resolved p := by
    rw [helement.item_path, idOf_of_place hplace]
  have hsame : ∀ keys, (s.place? keys).any (FileId.resolved p == .resolved ·) = true ↔
      s.place? keys = some p := by
    intro keys
    cases s.place? keys with
    | none => simp
    | some q => rw [Option.any_some, beq_iff_eq, FileId.resolved.injEq, Option.some_inj, eq_comm]
  rw [onCycle_eq, hid, List.any_eq_true]
  simp only [List.mem_range, hsame]
  constructor
  · rintro ⟨n, hn, h⟩
    refine ⟨e.ancestors.take (n + 1), ?_, List.take_prefix _ _, h⟩
    rw [Ne, List.take_eq_nil_iff]
    rintro (h | h)
    · cases h
    · rw [h] at hn
      cases hn
  · rintro ⟨keys, hne, hkeys, h⟩
    have hlength := List.length_pos_iff.2 hne
    have hle := hkeys.length_le
    refine ⟨keys.length - 1, by omega, ?_⟩
    rwa [Nat.sub_add_cancel hlength, ← List.prefix_iff_eq_take.1 hkeys]

/-! ## Explorations -/

variable (s) in
/-- The elements for the entries of the directory at an element, if it may be read. -/
def entries (e : FileElement) : List FileElement :=
  match s.place? e.path with
  | none => []
  | some p =>
    if (s.tree.node? p).any s.tree.mayRead then
      (s.tree.names p).map fun name => s.element e.path (Text.ofUtf8 name)
    else []

/-- What is expanded lists the entries of its directory. -/
theorem listed_eq_entries {v : Visit String Item} (helement : s.IsElement v.element)
    (hexpandable : v.element.expandable = true) (hexpand : v.decision = .expand) :
    s.catalog.listed v = s.entries v.element := by
  obtain ⟨p, n, hplace, hresolve, hn, hdirectory⟩ := helement.exists_place hexpandable
  have hcs := children_eq hresolve hn hdirectory
  unfold entries
  rw [hplace]
  dsimp only
  rw [hn, Option.any_some]
  cases hread : s.tree.mayRead n with
  | true =>
    rw [hread, if_pos rfl] at hcs
    rw [s.catalog.listed_eq hexpand hcs, if_pos rfl]
  | false =>
    rw [hread] at hcs
    exact Source.listed_eq_nil hcs

theorem kind_of_mem_markers {v : Visit String Item} {x : FileElement}
    (h : x ∈ s.catalog.markers v) : x.kind = .inserted := by
  unfold Source.markers at h
  split at h
  · rw [List.mem_singleton.1 h]
    rfl
  · cases h

theorem markers_eq_cycle {v : Visit String Item} :
    s.catalog.markers v = [marker v.element .cycle] ↔ v.decision = .mark .cycle := by
  unfold Source.markers
  split
  · next reason hmark =>
    rw [hmark, List.singleton_inj, Decision.mark.injEq]
    constructor
    · intro h
      exact Option.some.inj (congrArg Element.failure h)
    · rintro rfl
      rfl
  · next hother =>
    constructor
    · intro h
      cases h
    · intro h
      exact absurd h (hother _)

/-- Of what a visit emits, the element is no marker. -/
theorem filter_output {v : Visit String Item} (helement : s.IsElement v.element) :
    (s.catalog.output v).filter (fun x => x.kind ≠ .inserted) = [s.catalog.reported v] := by
  have hkind : (s.catalog.reported v).kind ≠ .inserted := by
    rw [Source.kind_reported]
    exact helement.kind_ne
  have hmarkers : (s.catalog.markers v).filter (fun x => x.kind ≠ .inserted) = [] := by
    rw [List.filter_eq_nil_iff]
    intro x hx
    simpa using kind_of_mem_markers hx
  rw [Source.output, List.filter_cons_of_pos (by simpa using hkind), hmarkers]

/-- Marked as a cycle is what stands at the place of a path above it. -/
theorem visit_marks_cycle_iff {r : VisitRecord FileId} (helement : s.IsElement e)
    (hexpandable : e.expandable = true) :
    s.catalog.markers (s.catalog.visitAt .marked e r) = [marker e .cycle] ↔
      ∃ keys, keys ≠ [] ∧ keys <+: e.path ∧ keys ≠ e.path ∧
        ∃ p, s.place? keys = some p ∧ s.place? e.path = some p := by
  obtain ⟨p, -, hplace, -⟩ := helement.exists_place hexpandable
  have hcycle : s.catalog.markers (s.catalog.visitAt .marked e r) = [marker e .cycle] ↔
      s.catalog.decide .marked e r = .mark .cycle := markers_eq_cycle
  rw [hcycle, Source.decide_eq_cycle, onCycle_iff helement hplace]
  constructor
  · rintro ⟨-, -, keys, hne, hkeys, h⟩
    obtain ⟨hpath, hproper⟩ := Element.strict_prefix_path_iff.2 hkeys
    exact ⟨keys, hne, hpath, hproper, p, h, hplace⟩
  · rintro ⟨keys, hne, hpath, hproper, q, h, hq⟩
    refine ⟨rfl, hexpandable, keys, hne, Element.strict_prefix_path_iff.1 ⟨hpath, hproper⟩, ?_⟩
    rw [h, ← hq, hplace]

variable (s) in
/-- With the visits of `log`, an exploration from `root` emits `out` and lists directories once. -/
structure ListsOnce (revisits : Revisits) (root : FileElement) (log : List (Visit String Item))
    (out : List FileElement) : Prop where
  /-- Each visit emits its element, with the failure if it could not be listed, and its marker. -/
  emitted : out = log.flatMap fun v => s.catalog.reported v :: s.catalog.markers v
  elements : (out.filter fun x => x.kind ≠ .inserted) = log.map s.catalog.reported
  /-- A listing is asked for at the places of directories, and at no place twice. -/
  places : ∀ v ∈ log, v.decision = .expand → ∃ p n, s.place? v.element.path = some p ∧
    s.tree.node? p = some n ∧ n.isDirectory = true
  once : ((log.filter (·.decision = .expand)).map fun v => s.place? v.element.path).Nodup
  /-- The elements are the root and one for each entry of each directory listed. -/
  entries : (log.map Visit.element).Perm
    (root :: (log.filter (·.decision = .expand)).flatMap fun v => s.entries v.element)
  /-- Marked as a cycle is what stands at the place of a path above it.  Paths have keys: no element
  stands where the first key is looked up. -/
  cycles : revisits = .marked → ∀ v ∈ log, v.element.expandable = true →
    (s.catalog.markers v = [marker v.element .cycle] ↔
      ∃ keys, keys ≠ [] ∧ keys <+: v.element.path ∧ keys ≠ v.element.path ∧
        ∃ p, s.place? keys = some p ∧ s.place? v.element.path = some p)

/-- From whatever root, an exploration of files ends, lists each directory at most once, and emits
one element for each entry of what it lists. -/
theorem explore_lists_once (s : FileSource) (name : String) (revisits : Revisits) (limit : Nat) :
    (∃ p, s.catalog.run revisits limit (s.element [] name) = some p) ∧
      ∃ log r, s.catalog.Trace revisits [s.element [] name] .empty log r ∧
        s.ListsOnce revisits (s.element [] name) log
          (s.catalog.explore revisits limit (s.element [] name)) := by
  have hroot : s.IsElement (s.element [] name) := isElement_element
  have bounded := catalog_bounded hroot
  obtain ⟨p, hrun, -⟩ := Source.run_visited revisits bounded limit
  obtain ⟨log, r, trace, hexplore⟩ := Source.explore_eq_output revisits bounded limit
  have helement : ∀ v ∈ log, s.IsElement v.element := fun v hv => hroot.reaches (trace.reaches hv)
  have hexpandable : ∀ v ∈ log, v.decision = .expand → v.element.expandable = true :=
    fun v hv => trace.tour.expandable_of_expand hv
  refine ⟨⟨p, hrun⟩, log, r, trace, hexplore, ?_, ?_, ?_, ?_, ?_⟩
  · rw [hexplore, List.filter_flatMap, List.map_eq_flatMap]
    exact List.flatMap_congr fun v hv => filter_output (helement v hv)
  · intro v hv hexpand
    obtain ⟨p, n, hplace, -, hn, hdirectory⟩ :=
      (helement v hv).exists_place (hexpandable v hv hexpand)
    exact ⟨p, n, hplace, hn, hdirectory⟩
  · refine List.pairwise_map.2 ((List.pairwise_map.1 trace.nodup_expandedIds).imp_of_mem ?_)
    intro v w hv hw hid hsame
    obtain ⟨hv, hexpand⟩ := List.mem_filter.1 hv
    obtain ⟨p, -, hplace, -⟩ :=
      (helement v hv).exists_place (hexpandable v hv (by simpa using hexpand))
    refine hid ?_
    change s.idOf v.element.item.path = s.idOf w.element.item.path
    rw [(helement v hv).item_path, (helement w (List.mem_filter.1 hw).1).item_path,
      idOf_of_place hplace, idOf_of_place (hsame ▸ hplace)]
  · have hperm := trace.tour.visited_perm
    rw [← Source.flatMap_listed_expanded] at hperm
    refine hperm.trans (.of_eq (congrArg _ (List.flatMap_congr fun v hv => ?_)))
    obtain ⟨hv, hexpand⟩ := List.mem_filter.1 hv
    have hexpand : v.decision = .expand := by simpa using hexpand
    exact listed_eq_entries (helement v hv) (hexpandable v hv hexpand) hexpand
  · rintro rfl v hv hexpandable
    obtain ⟨r', hvisit⟩ := trace.tour.visited_at v hv
    rw [hvisit]
    exact visit_marks_cycle_iff (helement v hv) hexpandable

end FileSource

end Hierarchy
