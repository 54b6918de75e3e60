import Hierarchy.Exploration.Concurrent
import Hierarchy.Proofs.Exploration.Run
import Hierarchy.Proofs.Exploration.Tour

/-!
# Units at work

Whichever unit takes the next step, the units together make a tour: their decisions are its visits,
in the order in which they are taken, and an element that no unit has to decide about is visited
along with the one that listed it.  `Account` says this of a workshop in the midst of its work, and
`Account.step` that every step of a unit keeps it.

So when no unit is left, what was emitted is the output of a complete tour (`complete_run`).  No
run goes on forever, since a decision that lists children records one more id, and all else is
work that was waiting (`halts`).
-/

namespace Hierarchy

/-! ## What units have still to do -/

section Units

variable {K α : Type}

/-- Elements about which nothing has been decided, in the order of the actions. -/
def WorkUnit.waiting : WorkUnit K α → List (Element K α)
  | .ready e => [e]
  | .busy actions => (Source.perform actions).2

/-- Elements that are decided about and not added yet. -/
def WorkUnit.promised : WorkUnit K α → List (Element K α)
  | .ready _ => []
  | .busy actions => (Source.perform actions).1

/-- The steps that an action needs, those of a submitted unit included as far as they are known
before it decides. -/
def Action.work : Action K α → Nat
  | .add _ => 1
  | .spawn _ => 5

/-- At most two additions follow a decision, unless it lists children; then comes the last step. -/
def WorkUnit.work : WorkUnit K α → Nat
  | .ready _ => 4
  | .busy actions => (actions.map Action.work).sum + 1

def totalWork (units : List (WorkUnit K α)) : Nat := (units.map WorkUnit.work).sum

theorem totalWork_append (units units' : List (WorkUnit K α)) :
    totalWork (units ++ units') = totalWork units + totalWork units' := by
  simp [totalWork]

theorem totalWork_middle (before after : List (WorkUnit K α)) (unit : WorkUnit K α) :
    totalWork (before ++ unit :: after) = unit.work + totalWork (before ++ after) := by
  simp only [totalWork, List.map_append, List.map_cons, List.sum_append, List.sum_cons]
  omega

theorem coe_flatMap_middle {β γ : Type} (f : β → List γ) (before after : List β) (x : β) :
    (↑((before ++ x :: after).flatMap f) : Multiset γ) =
      ↑(f x) + (↑(before.flatMap f) + ↑(after.flatMap f)) := by
  rw [List.flatMap_append, List.flatMap_cons, ← Multiset.coe_add, ← Multiset.coe_add]
  abel

end Units

namespace Source

variable {K α ι : Type}

theorem perform_append (actions actions' : List (Action K α)) :
    perform (actions ++ actions') =
      ((perform actions').1 ++ (perform actions).1,
        (perform actions).2 ++ (perform actions').2) := by
  induction actions with
  | nil => simp [perform]
  | cons action actions ih =>
    cases action with
    | add e => simp [perform, ih]
    | spawn e => simp [perform, ih]

theorem perform_add (es : List (Element K α)) : perform (es.map .add) = (es.reverse, []) := by
  induction es with
  | nil => rfl
  | cons e es ih => simp [perform, ih]

theorem perform_submit (es : List (Element K α)) :
    perform (es.map submit) =
      ((es.filter (!·.expandable)).reverse, es.filter (·.expandable)) := by
  induction es with
  | nil => rfl
  | cons e es ih =>
    unfold submit at ih ⊢
    by_cases hexpandable : e.expandable = true <;> simp [perform, hexpandable, ih]

variable [BEq ι] {s : Source K α ι} {revisits : Revisits} {root : Element K α}
  {log : List (Visit K α)} {w w' : Workshop K α ι}

/-- A unit adds the output of its visit and submits what the visit lists. -/
theorem decideUnit_eq {e : Element K α} {r : VisitRecord ι} :
    s.decideUnit revisits e r =
      ((s.output (s.visitAt revisits e r)).map .add ++
        (s.listed (s.visitAt revisits e r)).map submit,
        s.recorded (s.visitAt revisits e r) r) := by
  unfold decideUnit output reported markers listed recorded visitAt
  cases s.decide revisits e r with
  | emit => rfl
  | mark reason => rfl
  | expand => cases hcs : s.children e <;> simp

theorem waiting_decideUnit {e : Element K α} {r : VisitRecord ι} :
    (WorkUnit.busy (s.decideUnit revisits e r).1).waiting =
      (s.listed (s.visitAt revisits e r)).filter (·.expandable) := by
  rw [decideUnit_eq]
  simp [WorkUnit.waiting, perform_append, perform_add, perform_submit]

theorem promised_decideUnit {e : Element K α} {r : VisitRecord ι} :
    (WorkUnit.busy (s.decideUnit revisits e r).1).promised =
      ((s.listed (s.visitAt revisits e r)).filter (!·.expandable)).reverse ++
        (s.output (s.visitAt revisits e r)).reverse := by
  rw [decideUnit_eq]
  simp [WorkUnit.promised, perform_append, perform_add, perform_submit]

/-! ## Visits that need no decision -/

/-- The visits of those elements that cannot be expanded. -/
def leafVisits (es : List (Element K α)) : List (Visit K α) :=
  (es.filter (!·.expandable)).map fun e => ⟨e, .emit⟩

omit [BEq ι] in
theorem output_leafVisits (log : List (Visit K α)) (es : List (Element K α)) :
    (log ++ leafVisits es).flatMap s.output = log.flatMap s.output ++ es.filter (!·.expandable) := by
  unfold leafVisits
  rw [List.flatMap_append, List.flatMap_map]
  congr 1
  exact List.flatMap_singleton' _

/-- What cannot be expanded may be visited at once. -/
theorem Tour.leaves {es : List (Element K α)} {pending : Multiset (Element K α)}
    {r : VisitRecord ι} (tour : s.Tour revisits root log (↑es + pending) r) :
    s.Tour revisits root (log ++ leafVisits es) (↑(es.filter (·.expandable)) + pending) r := by
  unfold leafVisits
  induction es generalizing log pending with
  | nil => simpa using tour
  | cons e es ih =>
    rw [← Multiset.cons_coe, Multiset.cons_add] at tour
    by_cases hexpandable : e.expandable = true
    · rw [← Multiset.add_cons] at tour
      have hrest := ih tour
      rw [Multiset.add_cons, ← Multiset.cons_add, Multiset.cons_coe] at hrest
      simpa [hexpandable] using hrest
    · have hvisit : s.visitAt revisits e r = ⟨e, .emit⟩ := by
        unfold visitAt Source.decide
        rw [if_neg hexpandable]
      have hnext := tour.visit
      rw [hvisit] at hnext
      have hrest := ih (by simpa [listed, recorded] using hnext)
      simpa [hexpandable] using hrest

/-! ## Accounts -/

variable (s revisits) in
/-- The visits that the units of a workshop have made. -/
structure Account (root : Element K α) (log : List (Visit K α)) (w : Workshop K α ι) : Prop where
  tour : s.Tour revisits root log ↑(w.units.flatMap WorkUnit.waiting) w.progress.expanded
  /-- What the visits came to is emitted or going to be. -/
  output : (↑(w.units.flatMap WorkUnit.promised) + ↑w.progress.emitted :
    Multiset (Element K α)) = ↑(log.flatMap s.output)

theorem account_opening : ∃ log, s.Account revisits root log (opening root) := by
  unfold opening submit
  by_cases hexpandable : root.expandable = true
  · rw [if_pos hexpandable]
    exact ⟨[], by simpa [WorkUnit.waiting] using .start, by simp [WorkUnit.promised, Progress.start]⟩
  · rw [if_neg hexpandable]
    have hstart : s.Tour revisits root [] (↑[root] + 0) .empty := by simpa using .start
    have hleaf := hstart.leaves
    refine ⟨[] ++ leafVisits [root], by simpa [hexpandable] using hleaf, ?_⟩
    rw [output_leafVisits]
    simp [hexpandable]

/-- Every step of a unit is accounted for: a decision by visits, and all else by the visits made
before. -/
theorem Account.step (account : s.Account revisits root log w) (step : s.Step revisits w w') :
    ∃ log', s.Account revisits root log' w' := by
  obtain ⟨tour, houtput⟩ := account
  cases step with
  | @decide before after e p =>
    rw [coe_flatMap_middle] at tour houtput
    have hrecorded : (s.decideUnit revisits e p.expanded).2 =
        s.recorded (s.visitAt revisits e p.expanded) p.expanded := by rw [decideUnit_eq]
    refine ⟨log ++ [s.visitAt revisits e p.expanded] ++
      leafVisits (s.listed (s.visitAt revisits e p.expanded)), ?_, ?_⟩
    · rw [coe_flatMap_middle, waiting_decideUnit]
      dsimp only
      rw [hrecorded]
      exact tour.visit.leaves
    · rw [coe_flatMap_middle, promised_decideUnit, output_leafVisits, List.flatMap_append,
        List.flatMap_singleton]
      simp only [← Multiset.coe_add, Multiset.coe_reverse, ← houtput, WorkUnit.promised,
        Multiset.coe_nil]
      abel
  | @add before after e actions p =>
    refine ⟨log, ?_, ?_⟩
    · rw [coe_flatMap_middle] at tour ⊢
      exact tour
    · rw [coe_flatMap_middle] at houtput ⊢
      rw [← houtput]
      simp only [WorkUnit.promised, perform, ← Multiset.coe_add, ← Multiset.cons_coe,
        ← Multiset.singleton_add, Multiset.coe_nil]
      abel
  | @spawn before after e actions p =>
    have hunits : before ++ .busy actions :: after ++ [.ready e] =
        before ++ .busy actions :: (after ++ [.ready e]) := by simp
    rw [coe_flatMap_middle] at tour houtput
    refine ⟨log, ?_, ?_⟩
    · dsimp only
      rw [hunits, coe_flatMap_middle, List.flatMap_append, ← Multiset.coe_add]
      convert tour using 1
      simp only [WorkUnit.waiting, perform, List.flatMap_singleton, ← Multiset.cons_coe,
        ← Multiset.singleton_add, Multiset.coe_nil]
      abel
    · dsimp only
      rw [hunits, coe_flatMap_middle, List.flatMap_append, ← Multiset.coe_add, ← houtput]
      simp only [WorkUnit.promised, perform, List.flatMap_singleton, Multiset.coe_nil]
      abel
  | @done before after p =>
    rw [coe_flatMap_middle, Multiset.coe_add, ← List.flatMap_append] at tour houtput
    exact ⟨log, by simpa [WorkUnit.waiting, perform] using tour,
      by simpa [WorkUnit.promised, perform] using houtput⟩

/-- All steps of the units are accounted for. -/
theorem Steps.account (steps : s.Steps revisits (opening root) w) :
    ∃ log, s.Account revisits root log w := by
  induction steps with
  | refl => exact account_opening
  | tail _ step ih =>
    obtain ⟨log, account⟩ := ih
    exact account.step step

/-- When no unit is left, a complete tour has been made, and its output is what was emitted. -/
theorem Steps.complete (steps : s.Steps revisits (opening root) w) (done : w.units = []) :
    ∃ log, s.Tour revisits root log 0 w.progress.expanded ∧
      w.progress.emitted.Perm (log.flatMap s.output) := by
  obtain ⟨log, tour, houtput⟩ := steps.account
  rw [done] at tour houtput
  exact ⟨log, by simpa using tour, by simpa using houtput⟩

/-! ## Runs end -/

/-- As long as there is a unit it can take a step. -/
theorem exists_step (h : w.units ≠ []) : ∃ w', s.Step revisits w w' := by
  obtain ⟨units, p⟩ := w
  cases units with
  | nil => exact absurd rfl h
  | cons unit units =>
    cases unit with
    | ready e => exact ⟨_, @Step.decide _ _ _ _ _ _ [] units e p⟩
    | busy actions =>
      cases actions with
      | nil => exact ⟨_, @Step.done _ _ _ _ _ _ [] units p⟩
      | cons action actions =>
        cases action with
        | add e => exact ⟨_, @Step.add _ _ _ _ _ _ [] units e actions p⟩
        | spawn e => exact ⟨_, @Step.spawn _ _ _ _ _ _ [] units e actions p⟩

theorem not_step_of_done (done : w.units = []) (w' : Workshop K α ι) : ¬ s.Step revisits w w' := by
  intro step
  cases step <;> simp at done

variable [LawfulBEq ι] {ids : List ι}

omit [LawfulBEq ι] in
/-- A decision that lists nothing leaves less to do. -/
theorem work_decideUnit_lt {e : Element K α} {r : VisitRecord ι}
    (hlisted : s.listed (s.visitAt revisits e r) = []) :
    (WorkUnit.busy (s.decideUnit revisits e r).1).work < (WorkUnit.ready e).work := by
  rw [decideUnit_eq, hlisted]
  unfold output markers
  cases (s.visitAt revisits e r).decision <;> simp [WorkUnit.work, Action.work]

/-- A step records an id that was missing, or less work is left. -/
theorem Step.decreases (hids : s.Counts ids root) (account : s.Account revisits root log w)
    (step : s.Step revisits w w') :
    Prod.Lex (· < ·) (· < ·) (w'.progress.expanded.missing ids, totalWork w'.units)
      (w.progress.expanded.missing ids, totalWork w.units) := by
  cases step with
  | @decide before after e p =>
    have he : s.Reaches root e := by
      obtain ⟨as, chain, -⟩ := account.tour.chain_recorded e (by
        rw [coe_flatMap_middle]
        simp [WorkUnit.waiting])
      exact chain.reaches
    have hvisit : s.visit revisits e p = _ := visit_eq
    have hrecorded : (s.decideUnit revisits e p.expanded).2 =
        s.recorded (s.visitAt revisits e p.expanded) p.expanded := by rw [decideUnit_eq]
    dsimp only
    rw [hrecorded]
    by_cases hlisted : s.listed (s.visitAt revisits e p.expanded) = []
    · have hle : (s.recorded (s.visitAt revisits e p.expanded) p.expanded).missing ids ≤
          p.expanded.missing ids := missing_visit_le hvisit
      rw [Prod.lex_iff]
      refine (Nat.lt_or_eq_of_le hle).imp_right fun heq => ⟨heq, ?_⟩
      rw [totalWork_middle, totalWork_middle]
      exact Nat.add_lt_add_right (work_decideUnit_lt hlisted) _
    · exact .left _ _ (missing_visit_lt hids he hvisit hlisted)
  | @add before after e actions p =>
    refine .right _ ?_
    rw [totalWork_middle, totalWork_middle]
    simp [WorkUnit.work, Action.work]
  | @spawn before after e actions p =>
    refine .right _ ?_
    rw [totalWork_append, totalWork_middle, totalWork_middle]
    simp only [WorkUnit.work, Action.work, totalWork, List.map_cons, List.map_nil, List.sum_cons,
      List.sum_nil]
    omega
  | @done before after p =>
    refine .right _ ?_
    rw [totalWork_middle]
    simp [WorkUnit.work]

/-- No run goes on forever. -/
theorem halts (bounded : s.Bounded root) (revisits : Revisits) :
    Acc (fun w' w => s.Step revisits w w') (opening root) := by
  obtain ⟨ids, -, hids⟩ := bounded
  have wf : WellFounded (InvImage (Prod.Lex (· < ·) (· < ·)) fun w : Workshop K α ι =>
      (w.progress.expanded.missing ids, totalWork w.units)) :=
    InvImage.wf _ (WellFounded.prod_lex Nat.lt_wfRel.wf Nat.lt_wfRel.wf)
  have hall : ∀ w log, s.Account revisits root log w →
      Acc (fun w' w => s.Step revisits w w') w := by
    intro w
    induction w using wf.induction with
    | _ w ih =>
      intro log account
      refine .intro w fun w' step => ?_
      obtain ⟨log', account'⟩ := account.step step
      exact ih w' (step.decreases hids account) log' account'
  obtain ⟨log, account⟩ : ∃ log, s.Account revisits root log (opening root) := account_opening
  exact hall _ log account

end Source

end Hierarchy
