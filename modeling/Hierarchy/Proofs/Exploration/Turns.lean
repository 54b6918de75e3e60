import Hierarchy.Proofs.Exploration.Workshop

/-!
# Units that take turns

`Source.exploreConcurrently` serves one unit after the other, each without interruption.  That is
one of the runs of the workshop, and it comes to its end (`exploreConcurrently_run`).
-/

namespace Hierarchy

namespace Source

variable {K α ι : Type} [BEq ι] {s : Source K α ι} {revisits : Revisits} {u v w : Workshop K α ι}

theorem Steps.trans (h : s.Steps revisits u v) (h' : s.Steps revisits v w) :
    s.Steps revisits u w := by
  induction h' with
  | refl => exact h
  | tail _ step ih => exact ih.tail step

theorem Steps.head (h' : s.Steps revisits v w) (h : s.Step revisits u v) :
    s.Steps revisits u w :=
  ((Steps.refl u).tail h).trans h'

/-- A unit that is not interrupted: its elements are added, its children submitted behind the other
units. -/
theorem perform_steps {actions : List (Action K α)} {units : List (WorkUnit K α)}
    {p : Progress K α ι} :
    s.Steps revisits ⟨.busy actions :: units, p⟩
      ⟨units ++ (perform actions).2.map .ready,
        { p with emitted := (perform actions).1 ++ p.emitted }⟩ := by
  induction actions generalizing units p with
  | nil =>
    have hdone : s.Step revisits ⟨.busy [] :: units, p⟩ ⟨units, p⟩ :=
      @Step.done _ _ _ _ _ _ [] units p
    simpa [perform] using (Steps.refl _).tail hdone
  | cons action actions ih =>
    cases action with
    | add e =>
      have hadd : s.Step revisits ⟨.busy (.add e :: actions) :: units, p⟩
          ⟨.busy actions :: units, { p with emitted := e :: p.emitted }⟩ :=
        @Step.add _ _ _ _ _ _ [] units e actions p
      simpa [perform] using ih.head hadd
    | spawn e =>
      have hspawn : s.Step revisits ⟨.busy (.spawn e :: actions) :: units, p⟩
          ⟨.busy actions :: (units ++ [.ready e]), p⟩ :=
        @Step.spawn _ _ _ _ _ _ [] units e actions p
      simpa [perform] using ih.head hspawn

theorem serve_unit {e : Element K α} {waiting : List (Element K α)} {p : Progress K α ι} :
    s.Steps revisits ⟨(e :: waiting).map .ready, p⟩
      ⟨(waiting ++ (perform (s.decideUnit revisits e p.expanded).1).2).map .ready,
        ⟨(s.decideUnit revisits e p.expanded).2,
          (perform (s.decideUnit revisits e p.expanded).1).1 ++ p.emitted⟩⟩ := by
  have hdecide : s.Step revisits ⟨(e :: waiting).map .ready, p⟩ _ :=
    @Step.decide _ _ _ _ _ _ [] (waiting.map .ready) e p
  rw [List.map_append]
  exact perform_steps.head hdecide

omit [BEq ι] in
theorem opening_eq {root : Element K α} :
    (⟨(perform [submit root]).2.map .ready, ⟨.empty, (perform [submit root]).1⟩⟩ :
      Workshop K α ι) = opening root := by
  unfold opening submit
  by_cases hexpandable : root.expandable = true
  · simp [hexpandable, perform, Progress.start]
  · simp [hexpandable, perform]

variable [LawfulBEq ι] {ids : List ι} {n : Nat} {root : Element K α}
  {waiting : List (Element K α)} {p : Progress K α ι}

theorem serveWith_steps (hids : s.Counts ids root)
    {onChildren : List (Element K α) → Progress K α ι → Option (Progress K α ι)}
    (hchildren : ∀ waiting p, (∀ e ∈ waiting, s.Reaches root e) → p.expanded.missing ids < n →
      ∃ p', onChildren waiting p = some p' ∧
        s.Steps revisits ⟨waiting.map .ready, p⟩ ⟨[], p'⟩)
    (hwaiting : ∀ e ∈ waiting, s.Reaches root e) (hn : p.expanded.missing ids ≤ n) :
    ∃ p', s.serveWith revisits onChildren waiting p = some p' ∧
      s.Steps revisits ⟨waiting.map .ready, p⟩ ⟨[], p'⟩ := by
  induction waiting generalizing p with
  | nil => exact ⟨p, rfl, .refl _⟩
  | cons e waiting ih =>
    obtain ⟨he, hwaiting⟩ := List.forall_mem_cons.1 hwaiting
    have hunit : s.Steps revisits ⟨(e :: waiting).map .ready, p⟩ _ := serve_unit
    have hvisit : s.visit revisits e p = _ := visit_eq
    have hleft : (perform (s.decideUnit revisits e p.expanded).1).2 = _ := waiting_decideUnit
    have hexpanded : (s.decideUnit revisits e p.expanded).2 =
        s.recorded (s.visitAt revisits e p.expanded) p.expanded := by rw [decideUnit_eq]
    unfold serveWith
    generalize s.decideUnit revisits e p.expanded = decided at hunit hleft hexpanded ⊢
    obtain ⟨actions, expanded⟩ := decided
    dsimp only at hunit hleft hexpanded ⊢
    subst hexpanded
    generalize perform actions = performed at hunit hleft ⊢
    obtain ⟨added, left⟩ := performed
    dsimp only at hunit hleft ⊢
    cases left with
    | nil =>
      rw [List.append_nil] at hunit
      have hmissing : (s.recorded (s.visitAt revisits e p.expanded) p.expanded).missing ids ≤ n :=
        Nat.le_trans (missing_visit_le hvisit) hn
      obtain ⟨p', hp', hrest⟩ := ih (p := ⟨_, added ++ p.emitted⟩) hwaiting hmissing
      exact ⟨p', hp', hunit.trans hrest⟩
    | cons c left =>
      have hreaches := reaches_of_visit hvisit he
      have hlisted : ∀ x ∈ c :: left, x ∈ s.listed (s.visitAt revisits e p.expanded) := by
        rw [hleft]
        exact fun x hx => (List.mem_filter.1 hx).1
      have hall : ∀ x ∈ waiting ++ c :: left, s.Reaches root x := by
        intro x hx
        rcases List.mem_append.1 hx with hx | hx
        · exact hwaiting x hx
        · exact hreaches x (hlisted x hx)
      have hmissing : (s.recorded (s.visitAt revisits e p.expanded) p.expanded).missing ids < n :=
        Nat.lt_of_lt_of_le (missing_visit_lt hids he hvisit
          (List.ne_nil_of_mem (hlisted c List.mem_cons_self))) hn
      obtain ⟨p', hp', hrest⟩ := hchildren _ ⟨_, added ++ p.emitted⟩ hall hmissing
      exact ⟨p', hp', hunit.trans hrest⟩

theorem serve_steps (hids : s.Counts ids root) (hwaiting : ∀ e ∈ waiting, s.Reaches root e)
    (hn : p.expanded.missing ids ≤ n) :
    ∃ p', s.serve revisits n waiting p = some p' ∧
      s.Steps revisits ⟨waiting.map .ready, p⟩ ⟨[], p'⟩ := by
  induction n generalizing waiting p with
  | zero => exact serveWith_steps hids (fun _ _ _ h => absurd h (Nat.not_lt_zero _)) hwaiting hn
  | succ n ih =>
    exact serveWith_steps hids (fun _ _ h hlt => ih h (Nat.le_of_lt_succ hlt)) hwaiting hn

/-- Units that take turns make one of the runs, and come to an end. -/
theorem exploreConcurrently_run (bounded : s.Bounded root) (revisits : Revisits) :
    ∃ w, s.Steps revisits (opening root) w ∧ w.units = [] ∧
      s.exploreConcurrently revisits root = w.progress.emitted.reverse := by
  obtain ⟨ids, hbound, hids⟩ := bounded
  have hmissing : VisitRecord.empty.missing ids ≤ s.bound :=
    Nat.le_trans List.countP_le_length hbound
  have hwaiting : ∀ e ∈ (perform [submit root]).2, s.Reaches root e := by
    intro e he
    rw [← List.map_singleton, perform_submit] at he
    rw [List.mem_singleton.1 (List.mem_filter.1 he).1]
    exact .root
  obtain ⟨p', hserve, hsteps⟩ := serve_steps (p := ⟨.empty, (perform [submit root]).1⟩) hids
    hwaiting hmissing
  rw [opening_eq] at hsteps
  refine ⟨⟨[], p'⟩, hsteps, rfl, ?_⟩
  unfold exploreConcurrently
  dsimp only
  rw [hserve, Option.map_some, Option.getD_some]

end Source

end Hierarchy
