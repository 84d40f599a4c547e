import Mathlib.Logic.Basic

/-!
# Programs that may be interrupted

A program is a tree of requests: it makes one and goes on with the answer.  A handler says what a
request answers and what it does to a state; what the handler is free to choose is given with each
request.  `Keeps` says what holds whenever the program is interrupted and what holds when it is done.
-/

namespace Foundation

inductive Program (Request : Type) (Answer : Request → Type) where
  | done
  | call (request : Request) (next : Answer request → Program Request Answer)

/-- The answer to a request, and the state that it leaves. -/
abbrev Handler (Choice State Request : Type) (Answer : Request → Type) :=
  Choice → State → (request : Request) → Answer request × State

namespace Program

variable {Choice State Request Item : Type} {Answer : Request → Type}

/-- One program behind another one. -/
def andThen : Program Request Answer → Program Request Answer → Program Request Answer
  | done, second => second
  | call request next, second => call request fun answer => (next answer).andThen second

/-- A loop over a list. -/
def forEach (body : Item → Program Request Answer) : List Item → Program Request Answer
  | [] => done
  | item :: rest => (body item).andThen (forEach body rest)

/-! ## Whole runs -/

section Runs

variable (handle : Handler Choice State Request Answer) (choose : Request → Choice)

/-- The state at the end of a run. -/
def run : Program Request Answer → State → State
  | done, state => state
  | call request next, state =>
      (next (handle (choose request) state request).1).run (handle (choose request) state request).2

/-- The requests that are made in a run. -/
def made : Program Request Answer → State → List Request
  | done, _ => []
  | call request next, state =>
      request :: (next (handle (choose request) state request).1).made
        (handle (choose request) state request).2

variable {handle choose}

theorem run_andThen (first second : Program Request Answer) (state : State) :
    (first.andThen second).run handle choose state =
      second.run handle choose (first.run handle choose state) := by
  induction first generalizing state with
  | done => rfl
  | call request next ih => exact ih _ _

theorem made_andThen (first second : Program Request Answer) (state : State) :
    (first.andThen second).made handle choose state =
      first.made handle choose state ++ second.made handle choose (first.run handle choose state) := by
  induction first generalizing state with
  | done => rfl
  | call request next ih => exact congrArg (request :: ·) (ih _ _)

theorem run_forEach (body : Item → Program Request Answer) (items : List Item) (state : State) :
    (forEach body items).run handle choose state =
      items.foldl (fun state item => (body item).run handle choose state) state := by
  induction items generalizing state with
  | nil => rfl
  | cons item rest ih => rw [forEach, run_andThen, ih, List.foldl_cons]

/-- What every request keeps is kept by a run. -/
theorem run_invariant {property : State → Prop}
    (kept : ∀ state request, property state → property (handle (choose request) state request).2)
    (program : Program Request Answer) {state : State} (begins : property state) :
    property (program.run handle choose state) := by
  induction program generalizing state with
  | done => exact begins
  | call request next ih => exact ih _ (kept state request begins)

end Runs

/-! ## Interrupted runs -/

section Keeps

variable (handle : Handler Choice State Request Answer) (allowed : Choice → State → Request → Prop)
  (crashed post : State → Prop)

/-- As long as the choices are allowed, `crashed` holds before each request, and `post` at the end. -/
def Keeps : Program Request Answer → State → Prop
  | done, state => crashed state ∧ post state
  | call request next, state => crashed state ∧ ∀ choice, allowed choice state request →
      (next (handle choice state request).1).Keeps (handle choice state request).2

variable {handle allowed crashed post}

theorem Keeps.crash {program : Program Request Answer} {state : State}
    (keeps : program.Keeps handle allowed crashed post state) : crashed state := by
  cases program with
  | done => exact keeps.1
  | call request next => exact keeps.1

theorem Keeps.mono {weaker : State → Prop} (implied : ∀ state, post state → weaker state)
    {program : Program Request Answer} {state : State}
    (keeps : program.Keeps handle allowed crashed post state) :
    program.Keeps handle allowed crashed weaker state := by
  induction program generalizing state with
  | done => exact ⟨keeps.1, implied state keeps.2⟩
  | call request next ih => exact ⟨keeps.1, fun choice may => ih _ (keeps.2 choice may)⟩

theorem Keeps.andThen {first second : Program Request Answer} {state : State}
    (keeps : first.Keeps handle allowed crashed (second.Keeps handle allowed crashed post) state) :
    (first.andThen second).Keeps handle allowed crashed post state := by
  induction first generalizing state with
  | done => exact keeps.2
  | call request next ih => exact ⟨keeps.1, fun choice may => ih _ (keeps.2 choice may)⟩

/-- The rule for loops: an invariant that knows what is left of the list. -/
theorem Keeps.forEach (invariant : List Item → State → Prop) {body : Item → Program Request Answer}
    {items : List Item} {state : State} (safe : ∀ state, invariant [] state → crashed state)
    (step : ∀ item rest, item :: rest <:+ items → ∀ state, invariant (item :: rest) state →
      (body item).Keeps handle allowed crashed (invariant rest) state)
    (begins : invariant items state) :
    (Program.forEach body items).Keeps handle allowed crashed (invariant []) state := by
  induction items generalizing state with
  | nil => exact ⟨safe state begins, begins⟩
  | cons item rest ih =>
      refine Keeps.andThen ((step item rest List.suffix_rfl state begins).mono fun later held => ?_)
      exact ih (fun other more suffix => step other more (suffix.trans (List.suffix_cons item rest))) held

end Keeps

end Program

end Foundation
