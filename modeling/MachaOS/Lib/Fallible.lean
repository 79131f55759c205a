/-
State passing with early return, where the state survives the failure.

A routine that updates shared state and returns `Err` half way leaves every
update made before the return in place.  `ExceptT` over a state monad has this
meaning too; the type below fixes the order of the two once and gives the
rules the proofs use to run a routine forwards, step by step, and to read off
what a finished run must have done.
-/

import Mathlib.Tactic.Common

/-- A routine over the state `σ` that returns an `α` or stops with an `ε`. -/
def Fallible (σ ε α : Type) : Type :=
  σ → Except ε α × σ

namespace Fallible

variable {σ ε α β : Type}

protected def pure (value : α) : Fallible σ ε α :=
  fun state => (.ok value, state)

protected def bind (first : Fallible σ ε α) (next : α → Fallible σ ε β) :
    Fallible σ ε β :=
  fun state =>
    match first state with
    | (.ok value, after) => next value after
    | (.error failure, after) => (.error failure, after)

instance : Monad (Fallible σ ε) where
  pure := Fallible.pure
  bind := Fallible.bind

/-- Stop with `failure`, keeping the state reached so far. -/
def fail (failure : ε) : Fallible σ ε α :=
  fun state => (.error failure, state)

def get : Fallible σ ε σ :=
  fun state => (.ok state, state)

def modify (change : σ → σ) : Fallible σ ε Unit :=
  fun state => (.ok (), change state)

def query (ask : σ → Except ε α) : Fallible σ ε α :=
  fun state => (ask state, state)

@[simp] theorem pure_run (value : α) (state : σ) :
    (Pure.pure value : Fallible σ ε α) state = (.ok value, state) := rfl

@[simp] theorem fail_run (failure : ε) (state : σ) :
    (fail failure : Fallible σ ε α) state = (.error failure, state) := rfl

@[simp] theorem get_run (state : σ) :
    (get : Fallible σ ε σ) state = (.ok state, state) := rfl

@[simp] theorem modify_run (change : σ → σ) (state : σ) :
    (modify change : Fallible σ ε Unit) state = (.ok (), change state) := rfl

@[simp] theorem query_run (ask : σ → Except ε α) (state : σ) :
    (query ask : Fallible σ ε α) state = (ask state, state) := rfl

theorem bind_run (first : Fallible σ ε α) (next : α → Fallible σ ε β) (state : σ) :
    (first >>= next) state =
      match first state with
      | (.ok value, after) => next value after
      | (.error failure, after) => (.error failure, after) := rfl

variable {next : α → Fallible σ ε β} {first : Fallible σ ε α} {state : σ} {value : α}

theorem bind_of_ok {after : σ} (done : first state = (.ok value, after)) :
    (first >>= next) state = next value after := by
  rw [bind_run, done]

variable {failure : ε}

theorem bind_of_error {after : σ} (stopped : first state = (.error failure, after)) :
    (first >>= next) state = (.error failure, after) := by
  rw [bind_run, stopped]

theorem bind_assoc {γ : Type} (first : Fallible σ ε α) (next : α → Fallible σ ε β)
    (last : β → Fallible σ ε γ) :
    first >>= next >>= last = first >>= fun value => next value >>= last := by
  funext state
  rw [bind_run, bind_run, bind_run]
  rcases first state with ⟨_ | value, after⟩ <;> rfl

theorem bind_eq_ok {final : σ} {result : β} (run : (first >>= next) state = (.ok result, final)) :
    ∃ value after, first state = (.ok value, after) ∧
      next value after = (.ok result, final) := by
  rw [bind_run] at run
  rcases outcome : first state with ⟨_ | value, after⟩
  · rw [outcome] at run
    cases run
  · rw [outcome] at run
    exact ⟨value, after, rfl, run⟩

/-- Every run, finished or stopped, relates its first state to its last. -/
def Preserves (relation : σ → σ → Prop) (routine : Fallible σ ε α) : Prop :=
  ∀ state, relation state (routine state).2

variable {routine : Fallible σ ε α} {relation : σ → σ → Prop}

theorem Preserves.of_run (preserves : Preserves relation routine) {final : σ} {outcome : Except ε α}
    (run : routine state = (outcome, final)) : relation state final := by
  have related := preserves state
  rw [run] at related
  exact related

theorem preserves_pure (reflexive : ∀ state, relation state state) (value : α) :
    Preserves relation (Pure.pure value : Fallible σ ε α) :=
  fun state => reflexive state

theorem preserves_bind
    (transitive : ∀ first second third, relation first second → relation second third →
      relation first third)
    (before : Preserves relation first) (later : ∀ value, Preserves relation (next value)) :
    Preserves relation (first >>= next) := by
  intro state
  rw [bind_run]
  rcases outcome : first state with ⟨stopped | value, after⟩
  · exact before.of_run outcome
  · exact transitive _ _ _ (before.of_run outcome) (later value after)

/-- Every run relates its first state to its last, unless it stops for an excused reason. -/
def PreservesUnless (excused : ε → Prop) (relation : σ → σ → Prop)
    (routine : Fallible σ ε α) : Prop :=
  ∀ state outcome final, routine state = (outcome, final) →
    (∀ failure, outcome = .error failure → ¬ excused failure) → relation state final

variable {excused : ε → Prop}

theorem preservesUnless_pure (reflexive : ∀ state, relation state state) (value : α) :
    PreservesUnless excused relation (Pure.pure value : Fallible σ ε α) := by
  intro state outcome final run _
  cases run
  exact reflexive state

theorem preservesUnless_fail (reflexive : ∀ state, relation state state) (failure : ε) :
    PreservesUnless excused relation (fail failure : Fallible σ ε α) := by
  intro state outcome final run _
  cases run
  exact reflexive state

theorem preservesUnless_bind
    (transitive : ∀ first second third, relation first second → relation second third →
      relation first third)
    (before : PreservesUnless excused relation first)
    (later : ∀ value, PreservesUnless excused relation (next value)) :
    PreservesUnless excused relation (first >>= next) := by
  intro state outcome final run allowed
  rw [bind_run] at run
  rcases early : first state with ⟨stopped | value, middle⟩
  · rw [early] at run
    cases run
    exact before _ _ _ early (fun failure same => allowed failure (by cases same; rfl))
  · rw [early] at run
    exact transitive _ _ _ (before _ _ _ early (by simp)) (later value _ _ _ run allowed)

def Maintains (invariant : σ → Prop) (routine : Fallible σ ε α) : Prop :=
  ∀ state value final, invariant state → routine state = (.ok value, final) → invariant final

variable {invariant : σ → Prop}

theorem maintains_pure (value : α) : Maintains invariant (Pure.pure value : Fallible σ ε α) := by
  intro state result final holds run
  cases run
  exact holds

theorem maintains_bind (before : Maintains invariant first)
    (later : ∀ value, Maintains invariant (next value)) : Maintains invariant (first >>= next) := by
  intro state result final holds run
  obtain ⟨value, middle, ranFirst, ranNext⟩ := bind_eq_ok run
  exact later value _ _ _ (before _ _ _ holds ranFirst) ranNext

def Keeps (invariant : σ → Prop) (routine : Fallible σ ε α) : Prop :=
  ∀ state, invariant state → invariant (routine state).2

theorem Keeps.of_run (keeps : Keeps invariant routine) {final : σ} {outcome : Except ε α}
    (holds : invariant state) (run : routine state = (outcome, final)) : invariant final := by
  have kept := keeps state holds
  rw [run] at kept
  exact kept

theorem keeps_pure (value : α) : Keeps invariant (Pure.pure value : Fallible σ ε α) :=
  fun _ holds => holds

theorem keeps_fail (failure : ε) : Keeps invariant (fail failure : Fallible σ ε α) :=
  fun _ holds => holds

theorem keeps_get : Keeps invariant (get : Fallible σ ε σ) :=
  fun _ holds => holds

theorem keeps_query (ask : σ → Except ε α) : Keeps invariant (query ask) :=
  fun _ holds => holds

theorem keeps_modify {change : σ → σ} (keeps : ∀ state, invariant state → invariant (change state)) :
    Keeps invariant (modify change : Fallible σ ε Unit) :=
  keeps

theorem kept_bind (kept : invariant (first state).2)
    (later : ∀ value after, first state = (.ok value, after) → invariant after →
      invariant (next value after).2) :
    invariant ((first >>= next) state).2 := by
  rw [bind_run]
  rcases outcome : first state with ⟨stopped | value, after⟩
  · rw [outcome] at kept
    exact kept
  · rw [outcome] at kept
    exact later value after outcome kept

theorem keeps_bind (before : Keeps invariant first) (later : ∀ value, Keeps invariant (next value)) :
    Keeps invariant (first >>= next) :=
  fun state holds => kept_bind (before state holds) (fun value after _ kept => later value after kept)

theorem Keeps.of_bind_ok {final : σ} {result : β} (keeps : Keeps invariant first)
    (holds : invariant state) (run : (first >>= next) state = (.ok result, final)) :
    ∃ value middle, first state = (.ok value, middle) ∧ invariant middle ∧
      next value middle = (.ok result, final) := by
  obtain ⟨value, middle, ranFirst, ranNext⟩ := bind_eq_ok run
  exact ⟨value, middle, ranFirst, keeps.of_run holds ranFirst, ranNext⟩

/-- The run from `state` finishes with `post` or stops with `stopped`. -/
def Yields (routine : Fallible σ ε α) (state : σ) (post : α → σ → Prop)
    (stopped : ε → σ → Prop) : Prop :=
  match routine state with
  | (.ok value, after) => post value after
  | (.error failure, after) => stopped failure after

variable {post : α → σ → Prop} {stopped : ε → σ → Prop}

theorem yields_of_ok {after : σ} (run : routine state = (.ok value, after))
    (holds : post value after) : Yields routine state post stopped := by
  unfold Yields
  rw [run]
  exact holds

theorem yields_of_error {after : σ} (run : routine state = (.error failure, after))
    (holds : stopped failure after) : Yields routine state post stopped := by
  unfold Yields
  rw [run]
  exact holds

variable {last : β → σ → Prop}

theorem Yields.bind (before : Yields first state post stopped)
    (later : ∀ value after, post value after → Yields (next value) after last stopped) :
    Yields (first >>= next) state last stopped := by
  unfold Yields at before ⊢
  rcases outcome : first state with ⟨failure | value, after⟩
  · rw [outcome] at before
    rw [bind_of_error outcome]
    exact before
  · rw [outcome] at before
    rw [bind_of_ok outcome]
    exact later value after before

theorem Yields.bind_with {early : ε → σ → Prop} (before : Yields first state post early)
    (later : ∀ value after, post value after → Yields (next value) after last stopped)
    (wider : ∀ failure after, early failure after → stopped failure after) :
    Yields (first >>= next) state last stopped := by
  unfold Yields at before ⊢
  rcases outcome : first state with ⟨failure | value, after⟩
  · rw [outcome] at before
    rw [bind_of_error outcome]
    exact wider failure after before
  · rw [outcome] at before
    rw [bind_of_ok outcome]
    exact later value after before

theorem Yields.after {after : σ} (run : first state = (.ok value, after))
    (later : Yields (next value) after last stopped) :
    Yields (first >>= next) state last stopped := by
  unfold Yields at later ⊢
  rw [bind_of_ok run]
  exact later

theorem Yields.mono {post' : α → σ → Prop} (yields : Yields routine state post stopped)
    (wider : ∀ value after, post value after → post' value after) :
    Yields routine state post' stopped := by
  unfold Yields at yields ⊢
  rcases outcome : routine state with ⟨failure | value, after⟩
  · rw [outcome] at yields
    exact yields
  · rw [outcome] at yields
    exact wider value after yields

theorem Yields.weaken {post' : α → σ → Prop} {early : ε → σ → Prop}
    (yields : Yields routine state post early)
    (wider : ∀ value after, post value after → post' value after)
    (excused : ∀ failure after, early failure after → stopped failure after) :
    Yields routine state post' stopped := by
  unfold Yields at yields ⊢
  rcases outcome : routine state with ⟨failure | value, after⟩
  · rw [outcome] at yields
    exact excused failure after yields
  · rw [outcome] at yields
    exact wider value after yields

theorem Yields.of_ok {after : σ} (yields : Yields routine state post stopped)
    (run : routine state = (.ok value, after)) : post value after := by
  unfold Yields at yields
  rw [run] at yields
  exact yields

theorem Yields.of_error {after : σ} (yields : Yields routine state post stopped)
    (run : routine state = (.error failure, after)) : stopped failure after := by
  unfold Yields at yields
  rw [run] at yields
  exact yields

end Fallible
