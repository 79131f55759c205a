/-
Runs of a deterministic system whose steps may stop it.

A run feeds a list of events to a step function.  `Meets` says that every step
taken satisfies a condition on the state before it and the event; the rule
`after_invariant` turns a one-step argument under such a condition into a fact
about every state reached.
-/

import Mathlib.Data.List.Basic

namespace Runs

variable {S E : Type} (step : S → E → Option S)

/-- The state after the events, unless a step stops the system. -/
def after (state : S) : List E → Option S
  | [] => some state
  | event :: rest =>
      match step state event with
      | none => none
      | some next => after next rest

def Meets (condition : S → E → Prop) (state : S) : List E → Prop
  | [] => True
  | event :: rest =>
      condition state event ∧ ∀ next, step state event = some next → Meets condition next rest

variable {step}

variable {condition : S → E → Prop}

theorem Meets.of_forall (always : ∀ state event, condition state event) (state : S)
    (events : List E) : Meets step condition state events := by
  induction events generalizing state with
  | nil => trivial
  | cons event rest ih => exact ⟨always state event, fun next _ => ih next⟩

variable {events : List E}

theorem Meets.of_mem (each : ∀ event, event ∈ events → ∀ state, condition state event) (state : S) :
    Meets step condition state events := by
  induction events generalizing state with
  | nil => trivial
  | cons event rest ih =>
      exact ⟨each event List.mem_cons_self state,
        fun next _ => ih (fun other mem => each other (List.mem_cons_of_mem _ mem)) next⟩

theorem Meets.append {state : S} {early late : List E} (before : Meets step condition state early)
    (behind : ∀ middle, after step state early = some middle → Meets step condition middle late) :
    Meets step condition state (early ++ late) := by
  induction early generalizing state with
  | nil => exact behind state rfl
  | cons event rest ih =>
      refine ⟨before.1, fun next stepped => ih (before.2 next stepped) (fun middle ran => ?_)⟩
      refine behind middle ?_
      rw [after, stepped]
      exact ran

theorem Meets.and {one two : S → E → Prop} {state : S} (left : Meets step one state events)
    (right : Meets step two state events) :
    Meets step (fun state event => one state event ∧ two state event) state events := by
  induction events generalizing state with
  | nil => trivial
  | cons event rest ih =>
      exact ⟨⟨left.1, right.1⟩, fun next stepped => ih (left.2 next stepped) (right.2 next stepped)⟩

theorem Meets.last {condition : S → E → Prop} {state middle : S} {early : List E} {event : E}
    (meets : Meets step condition state (early ++ [event]))
    (ran : after step state early = some middle) : condition middle event := by
  induction early generalizing state with
  | nil =>
      cases ran
      exact meets.1
  | cons first rest ih =>
      rw [after] at ran
      cases stepped : step state first with
      | none =>
          rw [stepped] at ran
          cases ran
      | some next =>
          rw [stepped] at ran
          exact ih (meets.2 next stepped) ran

theorem Meets.front {state : S} {early : List E} (meets : Meets step condition state events)
    (front : early <+: events) : Meets step condition state early := by
  induction early generalizing state events with
  | nil => trivial
  | cons event rest ih =>
      cases events with
      | nil => exact absurd (List.prefix_nil.mp front) (List.cons_ne_nil _ _)
      | cons first others =>
          obtain ⟨rfl, inside⟩ := List.cons_prefix_cons.mp front
          exact ⟨meets.1, fun next stepped => ih (meets.2 next stepped) inside⟩

theorem meets_iff_meets {one two : S → E → Prop} {invariant : S → Prop}
    (keeps : ∀ state event next, invariant state → two state event →
      step state event = some next → invariant next)
    (agree : ∀ state event, invariant state → (one state event ↔ two state event))
    {first : S} (start : invariant first) (events : List E) :
    Meets step one first events ↔ Meets step two first events := by
  induction events generalizing first with
  | nil => exact Iff.rfl
  | cons event rest ih =>
      rw [Meets, Meets, agree first event start]
      apply and_congr_right
      intro met
      apply forall_congr'
      intro next
      apply imp_congr_right
      intro stepped
      exact ih (keeps first event next start met stepped)

theorem meets_congr {one two : S → E → Prop} {invariant : S → Prop}
    (keeps : ∀ state event next, invariant state → step state event = some next → invariant next)
    (agree : ∀ state event, invariant state → (one state event ↔ two state event))
    {first : S} (start : invariant first) (events : List E) :
    Meets step one first events ↔ Meets step two first events :=
  meets_iff_meets (fun state event next holds _ => keeps state event next holds) agree start events

theorem after_append {first last : S} {early late : List E} :
    after step first (early ++ late) = some last ↔
      ∃ middle, after step first early = some middle ∧ after step middle late = some last := by
  induction early generalizing first with
  | nil => simp [after]
  | cons event rest ih =>
      rw [List.cons_append, after, after]
      cases step first event with
      | none => simp
      | some next => exact ih

theorem after_invariant {condition : S → E → Prop} {invariant : S → Prop}
    (keeps : ∀ state event next, invariant state → condition state event →
      step state event = some next → invariant next)
    {state final : S} {events : List E} (holds : invariant state)
    (meets : Meets step condition state events)
    (ran : after step state events = some final) : invariant final := by
  induction events generalizing state with
  | nil =>
      cases ran
      exact holds
  | cons event rest ih =>
      rw [after] at ran
      cases stepped : step state event with
      | none =>
          rw [stepped] at ran
          cases ran
      | some next =>
          rw [stepped] at ran
          exact ih (keeps state event next holds meets.1 stepped) (meets.2 next stepped) ran

theorem always_iff_meets {condition : S → E → Prop} {invariant good : S → Prop}
    (keeps : ∀ state event next, invariant state → condition state event →
      step state event = some next → invariant next)
    (gives : ∀ state, invariant state → good state)
    (spoils : ∀ state event, invariant state → ¬ condition state event →
      ∃ next, step state event = some next ∧ ¬ good next)
    {first : S} (start : invariant first) (events : List E) :
    (∀ front, front <+: events → ∀ state, after step first front = some state → good state) ↔
      Meets step condition first events := by
  induction events generalizing first with
  | nil =>
      refine ⟨fun _ => trivial, fun _ front isPrefix state ran => ?_⟩
      obtain rfl := List.prefix_nil.mp isPrefix
      cases ran
      exact gives first start
  | cons event rest ih =>
      constructor
      · intro always
        have met : condition first event := by
          by_contra missed
          obtain ⟨next, stepped, spoiled⟩ := spoils first event start missed
          refine spoiled (always [event] ⟨rest, rfl⟩ next ?_)
          simp only [after, stepped]
        refine ⟨met, fun next stepped => ?_⟩
        refine (ih (keeps first event next start met stepped)).mp (fun front isPrefix state ran => ?_)
        refine always (event :: front) (List.cons_prefix_cons.mpr ⟨rfl, isPrefix⟩) state ?_
        rw [after, stepped]
        exact ran
      · intro meets front isPrefix state ran
        cases front with
        | nil =>
            cases ran
            exact gives first start
        | cons head tail =>
            obtain ⟨rfl, inside⟩ := List.cons_prefix_cons.mp isPrefix
            rw [after] at ran
            cases stepped : step first head with
            | none =>
                rw [stepped] at ran
                cases ran
            | some next =>
                rw [stepped] at ran
                exact (ih (keeps first head next start meets.1 stepped)).mpr (meets.2 next stepped)
                  tail inside state ran

theorem ends_well_iff_meets {invariant good : S → Prop}
    (keeps : ∀ state event, invariant state → condition state event →
      ∃ next, step state event = some next ∧ invariant next)
    (gives : ∀ state, invariant state → good state)
    (spoils : ∀ state event next, invariant state → ¬ condition state event →
      step state event = some next → ¬ good next)
    {first : S} (start : invariant first) (events : List E) :
    (∀ front, front <+: events → ∃ state, after step first front = some state ∧ good state) ↔
      Meets step condition first events := by
  induction events generalizing first with
  | nil =>
      refine ⟨fun _ => trivial, fun _ front isPrefix => ?_⟩
      obtain rfl := List.prefix_nil.mp isPrefix
      exact ⟨first, rfl, gives first start⟩
  | cons event rest ih =>
      constructor
      · intro always
        have met : condition first event := by
          by_contra missed
          obtain ⟨next, ran, fine⟩ := always [event] ⟨rest, rfl⟩
          rw [after] at ran
          cases stepped : step first event with
          | none =>
              rw [stepped] at ran
              cases ran
          | some last =>
              rw [stepped] at ran
              cases ran
              exact spoils first event next start missed stepped fine
        refine ⟨met, fun next stepped => ?_⟩
        obtain ⟨reached, same, kept⟩ := keeps first event start met
        rw [stepped] at same
        cases same
        refine (ih kept).mp (fun front isPrefix => ?_)
        have extended := always (event :: front) (List.cons_prefix_cons.mpr ⟨rfl, isPrefix⟩)
        rw [after, stepped] at extended
        exact extended
      · intro meets front isPrefix
        cases front with
        | nil => exact ⟨first, rfl, gives first start⟩
        | cons head tail =>
            obtain ⟨rfl, inside⟩ := List.cons_prefix_cons.mp isPrefix
            obtain ⟨next, stepped, kept⟩ := keeps first head start meets.1
            rw [after, stepped]
            exact (ih kept).mpr (meets.2 next stepped) tail inside

end Runs
