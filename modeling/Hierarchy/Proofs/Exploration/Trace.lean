import Hierarchy.Exploration.Walk

/-!
# What an exploration visits

Exploring is visiting pending elements one by one, where the children that a visit lists are to be
visited before everything else that is pending (`Trace`).  The log of the visits says all about an
exploration: what it emits, and what it records (`Trace.ids_eq`).

The trace from a list of pending elements is unique (`Trace.unique`); that there is one, and that
`explore` follows it, is the matter of `Hierarchy.Proofs.Exploration.Run`.
-/

namespace Hierarchy

/-! ## Records -/

namespace VisitRecord

variable {ι : Type} [BEq ι] {r : VisitRecord ι} {ids : List ι} {i j : ι}

theorem insert_new (h : r.contains i = false) : (r.insert i).2 = ⟨i :: r.ids⟩ := by
  unfold insert
  rw [h]
  rfl

/-- How many of the given ids are not recorded. -/
def missing (ids : List ι) (r : VisitRecord ι) : Nat := ids.countP (!r.contains ·)

theorem missing_le {r r' : VisitRecord ι} (h : ∀ i, r.contains i → r'.contains i) :
    r'.missing ids ≤ r.missing ids := by
  apply List.countP_mono_left
  intro i _ hi
  rw [Bool.not_eq_true'] at hi ⊢
  exact Bool.eq_false_iff.2 fun hr => Bool.eq_false_iff.1 hi (h i hr)

variable [LawfulBEq ι]

theorem contains_iff : r.contains i ↔ i ∈ r.ids := List.contains_iff_mem

theorem contains_insert : (r.insert i).2.contains j ↔ j = i ∨ r.contains j := by
  cases h : r.contains i with
  | false =>
    rw [insert_new h, contains_iff, contains_iff]
    exact List.mem_cons
  | true =>
    rw [insert, h]
    exact ⟨.inr, fun hj => hj.elim (fun hji => hji ▸ h) id⟩

theorem missing_insert_lt (hi : i ∈ ids) (hnew : r.contains i = false) :
    (r.insert i).2.missing ids < r.missing ids := by
  have hfilter : ids.filter (!(r.insert i).2.contains ·) =
      (ids.filter (!r.contains ·)).filter (· != i) := by
    rw [List.filter_filter]
    apply List.filter_congr
    intro j _
    have hinsert := contains_insert (r := r) (i := i) (j := j)
    by_cases hji : j = i
    · rw [hinsert.2 (.inl hji), hji]
      simp
    · have heq : (r.insert i).2.contains j = r.contains j :=
        Bool.eq_iff_iff.2 (hinsert.trans (or_iff_right hji))
      simp [heq, hji]
  unfold missing
  rw [List.countP_eq_length_filter, List.countP_eq_length_filter, hfilter,
    List.length_filter_lt_length_iff_exists]
  exact ⟨i, List.mem_filter.2 ⟨hi, by rw [hnew]; rfl⟩, by simp⟩

end VisitRecord

/-! ## Visits -/

/-- One visit: the element as it was listed, and what the visit came to. -/
structure Visit (K α : Type) where
  element : Element K α
  decision : Decision

namespace Source

variable {K α ι : Type} (s : Source K α ι)

/-- The element as it is emitted: a failed listing is recorded on it. -/
def reported (v : Visit K α) : Element K α :=
  match v.decision, s.children v.element with
  | .expand, .error cause => v.element.fail cause
  | _, _ => v.element

def markers (v : Visit K α) : List (Element K α) :=
  match v.decision with
  | .mark reason => [s.marker v.element reason]
  | _ => []

/-- What a visit emits, in order. -/
def output (v : Visit K α) : List (Element K α) := s.reported v :: s.markers v

/-- The children that are to be visited next. -/
def listed (v : Visit K α) : List (Element K α) :=
  match v.decision, s.children v.element with
  | .expand, .ok children => children
  | _, _ => []

theorem mem_listed {v : Visit K α} {c : Element K α} (h : c ∈ s.listed v) :
    v.decision = .expand ∧ ∃ cs, s.children v.element = .ok cs ∧ c ∈ cs := by
  unfold listed at h
  split at h
  · next cs hexpand hcs => exact ⟨hexpand, cs, hcs, h⟩
  · cases h

theorem listed_eq {v : Visit K α} {cs : List (Element K α)} (hexpand : v.decision = .expand)
    (hcs : s.children v.element = .ok cs) : s.listed v = cs := by
  unfold listed
  rw [hexpand, hcs]

variable {s} in
theorem listed_eq_nil {v : Visit K α} {cause : Failure}
    (hcs : s.children v.element = .error cause) : s.listed v = [] := by
  unfold listed
  rw [hcs]
  cases v.decision <;> rfl

variable {s} in
/-- Only what is expanded lists anything. -/
theorem flatMap_listed_expanded (log : List (Visit K α)) :
    (log.filter (·.decision = .expand)).flatMap s.listed = log.flatMap s.listed := by
  induction log with
  | nil => rfl
  | cons v log ih =>
    by_cases hexpand : v.decision = .expand
    · rw [List.filter_cons_of_pos (by simpa using hexpand), List.flatMap_cons, ih,
        List.flatMap_cons]
    · have hnil : s.listed v = [] :=
        List.eq_nil_iff_forall_not_mem.2 fun c hc => hexpand (s.mem_listed hc).1
      rw [List.filter_cons_of_neg (by simpa using hexpand), ih, List.flatMap_cons, hnil,
        List.nil_append]

variable [BEq ι] (revisits : Revisits)

def visitAt (e : Element K α) (r : VisitRecord ι) : Visit K α := ⟨e, s.decide revisits e r⟩

/-- The record after a visit. -/
def recorded (v : Visit K α) (r : VisitRecord ι) : VisitRecord ι :=
  match v.decision with
  | .expand => (r.insert (s.id v.element)).2
  | _ => r

variable {s revisits} {e : Element K α} {p : Progress K α ι} {r : VisitRecord ι}

theorem visit_eq :
    s.visit revisits e p =
      (⟨s.recorded (s.visitAt revisits e p.expanded) p.expanded,
        (s.output (s.visitAt revisits e p.expanded)).reverse ++ p.emitted⟩,
        s.listed (s.visitAt revisits e p.expanded)) := by
  unfold visit output reported markers listed recorded visitAt
  cases s.decide revisits e p.expanded with
  | emit => rfl
  | mark reason => rfl
  | expand => cases hcs : s.children e <;> simp

theorem contains_recorded [LawfulBEq ι] {v : Visit K α} {i : ι} :
    (s.recorded v r).contains i ↔ (v.decision = .expand ∧ i = s.id v.element) ∨ r.contains i := by
  unfold recorded
  split
  · next hexpand => simp [VisitRecord.contains_insert, hexpand]
  · next hne => exact ⟨.inr, fun h => h.resolve_left fun h => hne h.1⟩

/-- Expanded is what can be expanded, is not on a cycle and was not expanded before. -/
theorem decide_eq_expand :
    s.decide revisits e r = .expand ↔
      e.expandable = true ∧ s.onCycle e = false ∧ r.contains (s.id e) = false := by
  unfold decide
  cases e.expandable <;> cases s.onCycle e <;> cases r.contains (s.id e) <;> cases revisits <;>
    simp

theorem expandable_of_listed {c : Element K α} (h : c ∈ s.listed (s.visitAt revisits e r)) :
    e.expandable = true :=
  (decide_eq_expand.1 (s.mem_listed h).1).1

theorem decide_eq_cycle :
    s.decide revisits e r = .mark .cycle ↔
      revisits = .marked ∧ e.expandable = true ∧ s.onCycle e = true := by
  unfold decide
  cases e.expandable <;> cases s.onCycle e <;> cases r.contains (s.id e) <;> cases revisits <;>
    simp

/-- What a visit comes to hangs on the record only as far as the element is expanded or not. -/
theorem visitAt_eq {e : Element K α} {r r' : VisitRecord ι}
    (h : (s.visitAt revisits e r).decision = .expand ↔
      (s.visitAt revisits e r').decision = .expand) :
    s.visitAt revisits e r = s.visitAt revisits e r' := by
  revert h
  unfold visitAt decide
  cases e.expandable <;> cases s.onCycle e <;> cases r.contains (s.id e) <;>
    cases r'.contains (s.id e) <;> cases revisits <;> simp

/-! ## Traces -/

variable (s revisits) in
/-- All visits from a list of pending elements on, and the record before and after. -/
inductive Trace :
    List (Element K α) → VisitRecord ι → List (Visit K α) → VisitRecord ι → Prop where
  | done (r : VisitRecord ι) : Trace [] r [] r
  | visit {e : Element K α} {pending : List (Element K α)} {r r' : VisitRecord ι}
      {log : List (Visit K α)}
      (rest : Trace (s.listed (s.visitAt revisits e r) ++ pending)
        (s.recorded (s.visitAt revisits e r) r) log r') :
      Trace (e :: pending) r (s.visitAt revisits e r :: log) r'

variable {pending pending' : List (Element K α)} {r' r₁ r₂ : VisitRecord ι}
  {log log₁ log₂ : List (Visit K α)}

theorem Trace.append (h₁ : s.Trace revisits pending r log₁ r₁)
    (h₂ : s.Trace revisits pending' r₁ log₂ r₂) :
    s.Trace revisits (pending ++ pending') r (log₁ ++ log₂) r₂ := by
  induction h₁ with
  | done r => exact h₂
  | visit _ ih =>
    have rest := ih h₂
    rw [List.append_assoc] at rest
    exact .visit rest

/-- All that is pending first is visited, with everything below it, before the rest. -/
theorem Trace.split (h : s.Trace revisits (pending ++ pending') r log r') :
    ∃ log₁ log₂ r₁, log = log₁ ++ log₂ ∧ s.Trace revisits pending r log₁ r₁ ∧
      s.Trace revisits pending' r₁ log₂ r' := by
  generalize hall : pending ++ pending' = all at h
  induction h generalizing pending with
  | done r =>
    obtain ⟨rfl, rfl⟩ := List.append_eq_nil_iff.1 hall
    exact ⟨[], [], r, rfl, .done r, .done r⟩
  | @visit e rest r r' log next ih =>
    cases pending with
    | nil =>
      obtain rfl : pending' = e :: rest := hall
      exact ⟨[], _, r, rfl, .done r, .visit next⟩
    | cons d pending =>
      obtain ⟨rfl, rfl⟩ := List.cons_eq_cons.1 hall
      obtain ⟨log₁, log₂, r₁, rfl, h₁, h₂⟩ := ih (List.append_assoc _ _ _)
      exact ⟨_, log₂, r₁, rfl, .visit h₁, h₂⟩

/-- What is pending determines the visits. -/
theorem Trace.unique (h₁ : s.Trace revisits pending r log₁ r₁)
    (h₂ : s.Trace revisits pending r log₂ r₂) : log₁ = log₂ ∧ r₁ = r₂ := by
  induction h₁ generalizing log₂ with
  | done r =>
    cases h₂
    exact ⟨rfl, rfl⟩
  | visit _ ih =>
    cases h₂ with
    | visit rest =>
      obtain ⟨rfl, rfl⟩ := ih rest
      exact ⟨rfl, rfl⟩

/-! ## What is recorded -/

variable (s) in
/-- The ids that a log expands, in order. -/
def expandedIds (log : List (Visit K α)) : List ι :=
  (log.filter (·.decision = .expand)).map fun v => s.id v.element

omit [BEq ι] in
theorem mem_expandedIds {i : ι} :
    i ∈ s.expandedIds log ↔ ∃ v ∈ log, v.decision = .expand ∧ s.id v.element = i := by
  simp [expandedIds, and_assoc]

omit [BEq ι] in
theorem expandedIds_append :
    s.expandedIds (log₁ ++ log₂) = s.expandedIds log₁ ++ s.expandedIds log₂ := by
  unfold expandedIds
  rw [List.filter_append, List.map_append]

theorem ids_recorded :
    (s.recorded (s.visitAt revisits e r) r).ids =
      (s.expandedIds [s.visitAt revisits e r]).reverse ++ r.ids := by
  unfold recorded expandedIds visitAt
  cases h : s.decide revisits e r with
  | emit => rfl
  | mark reason => rfl
  | expand =>
    have hrecord := VisitRecord.insert_new (decide_eq_expand.1 h).2.2
    dsimp only
    rw [hrecord]
    rfl

/-- A trace records what it expands. -/
theorem Trace.ids_eq (h : s.Trace revisits pending r log r') :
    r'.ids = (s.expandedIds log).reverse ++ r.ids := by
  induction h with
  | done r => rfl
  | @visit e pending r r' log _ ih =>
    rw [ih, ids_recorded, ← List.append_assoc, ← List.reverse_append, ← expandedIds_append]
    rfl

theorem Trace.contains_iff [LawfulBEq ι] (h : s.Trace revisits pending r log r') {i : ι} :
    r'.contains i ↔ i ∈ s.expandedIds log ∨ r.contains i := by
  rw [VisitRecord.contains_iff, VisitRecord.contains_iff, h.ids_eq, List.mem_append,
    List.mem_reverse]

/-- No id is recorded twice. -/
theorem nodup_recorded [LawfulBEq ι] (hr : r.ids.Nodup) :
    (s.recorded (s.visitAt revisits e r) r).ids.Nodup := by
  unfold recorded visitAt
  cases hdecision : s.decide revisits e r with
  | emit => exact hr
  | mark reason => exact hr
  | expand =>
    have hnew := (decide_eq_expand.1 hdecision).2.2
    dsimp only
    rw [VisitRecord.insert_new hnew, List.nodup_cons, ← VisitRecord.contains_iff, hnew]
    exact ⟨Bool.false_ne_true, hr⟩

/-- An element that can be expanded is on a cycle, or its id is recorded after its visit. -/
theorem onCycle_or_recorded [LawfulBEq ι] (hexpandable : e.expandable = true) :
    s.onCycle e = true ∨ (s.recorded (s.visitAt revisits e r) r).contains (s.id e) := by
  by_cases hcycle : s.onCycle e = true
  · exact .inl hcycle
  right
  by_cases hr : r.contains (s.id e)
  · exact contains_recorded.2 (.inr hr)
  · have hexpand : s.decide revisits e r = .expand :=
      decide_eq_expand.2 ⟨hexpandable, by simpa using hcycle, by simpa using hr⟩
    exact contains_recorded.2 (.inl ⟨hexpand, rfl⟩)

/-! ## Markers -/

variable (s)

/-- What is marked can be expanded and is not. -/
theorem length_markers_visitAt (e : Element K α) (r : VisitRecord ι) :
    (s.markers (s.visitAt .marked e r)).length + (s.expandedIds [s.visitAt .marked e r]).length =
      [s.visitAt .marked e r].countP (·.element.expandable) := by
  unfold markers expandedIds visitAt decide
  cases hexpandable : e.expandable <;> cases s.onCycle e <;> cases r.contains (s.id e) <;>
    simp [hexpandable]

theorem markers_visitAt_compact (e : Element K α) (r : VisitRecord ι) :
    s.markers (s.visitAt .compact e r) = [] := by
  unfold markers visitAt decide
  cases e.expandable <;> cases s.onCycle e <;> cases r.contains (s.id e) <;> rfl

end Source

end Hierarchy
