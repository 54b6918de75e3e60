import Hierarchy.Proofs.Exploration.Chain
import Hierarchy.Proofs.Exploration.Run

/-!
# Where elements are met

A trace tells which elements are visited, and forgets through which others each was met.  A route is
a trace that remembers them (`Route.trace`, `Trace.route`): each of its stops has the elements above
it, and these are the chain of listings that led there (`Route.chain`).

On a route the test for cycles can be replaced (`Route.retest`).  As long as neither test raises a
false alarm, that is, answers for an element without its own id above it, the stops stay: an element
with its own id above it is not expanded either way, since this id is recorded.
-/

namespace Hierarchy

/-- An element and the elements through which it was met, the root first. -/
structure Occurrence (K α : Type) where
  above : List (Element K α)
  element : Element K α

/-- An occurrence that was visited, and what the visit came to. -/
structure Stop (K α : Type) extends Occurrence K α where
  decision : Decision

namespace Occurrence

variable {K α : Type}

def root (e : Element K α) : Occurrence K α := ⟨[], e⟩

/-- The occurrences of the children. -/
def below (p : Occurrence K α) (cs : List (Element K α)) : List (Occurrence K α) :=
  cs.map fun c => ⟨p.above ++ [p.element], c⟩

@[simp] theorem map_element_below (p : Occurrence K α) (cs : List (Element K α)) :
    (p.below cs).map Occurrence.element = cs := by
  simp [below, Function.comp_def]

theorem mem_below {p q : Occurrence K α} {cs : List (Element K α)} :
    q ∈ p.below cs ↔ q.above = p.above ++ [p.element] ∧ q.element ∈ cs := by
  obtain ⟨above, e⟩ := q
  simp [below, and_comm, eq_comm]

end Occurrence

namespace Source

variable {K α ι : Type} [BEq ι] (s : Source K α ι) (revisits : Revisits)

/-- The stop at an occurrence. -/
def stopAt (p : Occurrence K α) (r : VisitRecord ι) : Stop K α :=
  ⟨p, s.decide revisits p.element r⟩

/-- All stops from a list of pending occurrences on, and the record before and after. -/
inductive Route :
    List (Occurrence K α) → VisitRecord ι → List (Stop K α) → VisitRecord ι → Prop where
  | done (r : VisitRecord ι) : Route [] r [] r
  | visit {p : Occurrence K α} {pending : List (Occurrence K α)} {r r' : VisitRecord ι}
      {stops : List (Stop K α)}
      (rest : Route (p.below (s.listed (s.visitAt revisits p.element r)) ++ pending)
        (s.recorded (s.visitAt revisits p.element r) r) stops r') :
      Route (p :: pending) r (s.stopAt revisits p r :: stops) r'

end Source

/-- The visit alone. -/
def Stop.visit {K α : Type} (t : Stop K α) : Visit K α := ⟨t.element, t.decision⟩

def occurrences {K α : Type} (stops : List (Stop K α)) : List (Occurrence K α) :=
  stops.map Stop.toOccurrence

@[simp] theorem occurrences_cons {K α : Type} (t : Stop K α) (stops : List (Stop K α)) :
    occurrences (t :: stops) = t.toOccurrence :: occurrences stops := rfl

namespace Source

variable {K α ι : Type} [BEq ι] {s : Source K α ι} {revisits revisits' : Revisits}
  {pending : List (Occurrence K α)} {r r' r₁ r₂ : VisitRecord ι} {stops stops₁ stops₂ : List (Stop K α)}
  {root : Element K α}

/-! ## Routes and traces -/

theorem Route.trace (route : s.Route revisits pending r stops r') :
    s.Trace revisits (pending.map Occurrence.element) r (stops.map Stop.visit) r' := by
  induction route with
  | done r => exact .done r
  | visit _ ih =>
    rw [List.map_append, Occurrence.map_element_below] at ih
    exact .visit ih

theorem Trace.route {es : List (Element K α)} {log : List (Visit K α)}
    (trace : s.Trace revisits es r log r') (hpending : pending.map Occurrence.element = es) :
    ∃ stops, s.Route revisits pending r stops r' ∧ stops.map Stop.visit = log := by
  induction trace generalizing pending with
  | done r =>
    obtain rfl := List.map_eq_nil_iff.1 hpending
    exact ⟨[], .done r, rfl⟩
  | @visit e es r r' log _ ih =>
    obtain ⟨p, pending, rfl, rfl, rfl⟩ := List.map_eq_cons_iff.1 hpending
    have hnext : (p.below (s.listed (s.visitAt revisits p.element r)) ++ pending).map
        Occurrence.element = s.listed (s.visitAt revisits p.element r) ++
          pending.map Occurrence.element := by
      rw [List.map_append, Occurrence.map_element_below]
    obtain ⟨stops, route, hstops⟩ := ih hnext
    exact ⟨s.stopAt revisits p r :: stops, .visit route, by rw [List.map_cons, hstops]; rfl⟩

/-- What is pending determines the stops. -/
theorem Route.unique (h₁ : s.Route revisits pending r stops₁ r₁)
    (h₂ : s.Route revisits pending r stops₂ r₂) : stops₁ = stops₂ ∧ r₁ = r₂ := by
  induction h₁ generalizing stops₂ with
  | done r =>
    cases h₂
    exact ⟨rfl, rfl⟩
  | visit _ ih =>
    cases h₂ with
    | visit rest =>
      obtain ⟨rfl, rfl⟩ := ih rest
      exact ⟨rfl, rfl⟩

/-- The elements above a stop led to it. -/
theorem Route.chain (route : s.Route revisits pending r stops r')
    (hpending : ∀ p ∈ pending, s.Chain root p.above p.element) :
    ∀ t ∈ stops, s.Chain root t.above t.element := by
  induction route with
  | done r => simp
  | @visit p pending r r' stops _ ih =>
    obtain ⟨hp, hpending⟩ := List.forall_mem_cons.1 hpending
    have hall : ∀ q ∈ p.below (s.listed (s.visitAt revisits p.element r)) ++ pending,
        s.Chain root q.above q.element := by
      intro q hq
      rcases List.mem_append.1 hq with hq | hq
      · obtain ⟨habove, hlisted⟩ := Occurrence.mem_below.1 hq
        obtain ⟨hexpand, cs, hcs, hc⟩ := s.mem_listed hlisted
        rw [habove]
        exact hp.child (decide_eq_expand.1 hexpand).1 hcs hc
      · exact hpending q hq
    exact List.forall_mem_cons.2 ⟨hp, ih hall⟩

theorem Route.chain_root (route : s.Route revisits [.root root] r stops r') :
    ∀ t ∈ stops, s.Chain root t.above t.element :=
  route.chain <| List.forall_mem_singleton.2 .root

/-- Each stop is one at the record of its moment. -/
theorem Route.stopped_at (route : s.Route revisits pending r stops r') :
    ∀ t ∈ stops, ∃ r', t = s.stopAt revisits t.toOccurrence r' := by
  induction route with
  | done r => simp
  | @visit p pending r r' stops _ ih => exact List.forall_mem_cons.2 ⟨⟨r, rfl⟩, ih⟩

/-- An exploration emits the output of its stops. -/
theorem explore_eq_stops [LawfulBEq ι] (revisits : Revisits) (bounded : s.Bounded root)
    (limit : Nat) :
    ∃ stops r, s.Route revisits [.root root] .empty stops r ∧
      s.explore revisits limit root = stops.flatMap fun t => s.output t.visit := by
  obtain ⟨log, r, trace, hexplore⟩ := explore_eq_output revisits bounded limit
  have hroot : [Occurrence.root root].map Occurrence.element = [root] := rfl
  obtain ⟨stops, route, rfl⟩ := trace.route hroot
  exact ⟨stops, r, route, by rw [hexplore, List.flatMap_map]⟩

/-! ## Another test for cycles -/

variable (s) in
/-- The source with another test for cycles. -/
def withTest (test : Element K α → Bool) : Source K α ι := { s with onCycle := test }

variable (s) in
/-- An element above has the same id. -/
def Recurs (p : Occurrence K α) : Prop := ∃ a ∈ p.above, s.id a = s.id p.element

omit [BEq ι] in
theorem reaches_withTest {test : Element K α → Bool} {e : Element K α} :
    (s.withTest test).Reaches root e ↔ s.Reaches root e := reaches_congr fun _ => rfl

omit [BEq ι] in
theorem bounded_withTest {test : Element K α → Bool} (bounded : s.Bounded root) :
    (s.withTest test).Bounded root := by
  obtain ⟨ids, hbound, hids⟩ := bounded
  exact ⟨ids, hbound, fun e cs he => hids e cs (reaches_withTest.1 he)⟩

omit [BEq ι] in
theorem listed_congr {e : Element K α} {d d' : Decision} (h : d = .expand ↔ d' = .expand) :
    s.listed ⟨e, d⟩ = s.listed ⟨e, d'⟩ := by
  unfold listed
  cases d <;> cases d' <;> simp at h ⊢

theorem recorded_congr {e : Element K α} {d d' : Decision} (h : d = .expand ↔ d' = .expand) :
    s.recorded ⟨e, d⟩ r = s.recorded ⟨e, d'⟩ r := by
  unfold recorded
  cases d <;> cases d' <;> simp at h ⊢

variable {test : Element K α → Bool}

/-- Where both tests only answer for what is recorded, they have the same expanded. -/
theorem decide_withTest {e : Element K α}
    (hrecorded : e.expandable = true → s.onCycle e = true ∨ test e = true → r.contains (s.id e)) :
    (s.withTest test).decide revisits' e r = .expand ↔ s.decide revisits e r = .expand := by
  rw [decide_eq_expand, decide_eq_expand]
  constructor
  · rintro ⟨hexpandable, -, hnew⟩
    refine ⟨hexpandable, Bool.eq_false_iff.2 fun hcycle => ?_, hnew⟩
    exact Bool.eq_false_iff.1 hnew (hrecorded hexpandable (.inl hcycle))
  · rintro ⟨hexpandable, -, hnew⟩
    refine ⟨hexpandable, Bool.eq_false_iff.2 fun htest => ?_, hnew⟩
    exact Bool.eq_false_iff.1 hnew (hrecorded hexpandable (.inr htest))

variable [LawfulBEq ι]

/-- What is above a child of a stop is recorded after it, if what is above the stop was before. -/
theorem recorded_below {p : Occurrence K α} (habove : ∀ a ∈ p.above, r.contains (s.id a)) :
    ∀ q ∈ p.below (s.listed (s.visitAt revisits p.element r)), ∀ a ∈ q.above,
      (s.recorded (s.visitAt revisits p.element r) r).contains (s.id a) := by
  intro q hq a ha
  obtain ⟨hqabove, hlisted⟩ := Occurrence.mem_below.1 hq
  rw [hqabove] at ha
  rcases List.mem_append.1 ha with ha | ha
  · exact contains_recorded.2 (.inr (habove a ha))
  · rw [List.mem_singleton.1 ha]
    exact contains_recorded.2 (.inl ⟨(s.mem_listed hlisted).1, rfl⟩)

/-- With another test the occurrences stay, unless one of the tests answers for an element without its own
id above it. -/
theorem Route.retest (route : s.Route revisits pending r stops r')
    (habove : ∀ p ∈ pending, ∀ a ∈ p.above, r.contains (s.id a))
    (hrecurs : ∀ t ∈ stops, t.element.expandable = true →
      s.onCycle t.element = true ∨ test t.element = true → s.Recurs t.toOccurrence) :
    ∃ stops', (s.withTest test).Route revisits' pending r stops' r' ∧
      occurrences stops' = occurrences stops := by
  induction route with
  | done r => exact ⟨[], .done r, rfl⟩
  | @visit p pending r r' stops _ ih =>
    obtain ⟨hp, hpending⟩ := List.forall_mem_cons.1 habove
    obtain ⟨hstop, hstops⟩ := List.forall_mem_cons.1 hrecurs
    have hsame : (s.withTest test).decide revisits' p.element r = .expand ↔
        s.decide revisits p.element r = .expand := by
      refine decide_withTest fun hexpandable htests => ?_
      obtain ⟨a, ha, hid⟩ := hstop hexpandable htests
      have hcontains := hp a ha
      rwa [hid] at hcontains
    have hbelow : ∀ q ∈ p.below (s.listed (s.visitAt revisits p.element r)) ++ pending,
        ∀ a ∈ q.above, (s.recorded (s.visitAt revisits p.element r) r).contains (s.id a) := by
      intro q hq
      rcases List.mem_append.1 hq with hq | hq
      · exact recorded_below hp q hq
      · exact fun a ha => contains_recorded.2 (.inr (hpending q hq a ha))
    obtain ⟨stops', route', hstops'⟩ := ih hbelow hstops
    refine ⟨(s.withTest test).stopAt revisits' p r :: stops', .visit ?_, ?_⟩
    · have hlisted : (s.withTest test).listed ((s.withTest test).visitAt revisits' p.element r) =
          s.listed (s.visitAt revisits p.element r) := listed_congr hsame
      have hrecorded : (s.withTest test).recorded
          ((s.withTest test).visitAt revisits' p.element r) r =
            s.recorded (s.visitAt revisits p.element r) r := recorded_congr hsame
      rwa [hlisted, hrecorded]
    · rw [occurrences_cons, occurrences_cons, hstops']
      rfl

end Source

end Hierarchy
