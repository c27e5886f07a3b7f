/-!
# Machines

A session and a server answer one input after another, each from the state that the inputs
before it led to.  What follows from this alone is said here for any machine, given by its
step.

## Main definitions

* `Machine.run`, `Machine.after` - the answers to inputs, and the state after them.

## Main statements

* `Machine.run_append` - inputs are answered part by part.
* `Machine.getElem?_run` - **an input is answered from the state before it**, however the
  inputs go on.
-/

namespace SchemaQuery.Machine

variable {State Input Answer : Type}

/-- The answers to inputs. -/
def run (step : State → Input → Answer × State) (s : State) : List Input → List Answer
  | [] => []
  | x :: rest => (step s x).1 :: run step (step s x).2 rest

/-- The state after inputs. -/
def after (step : State → Input → Answer × State) (s : State) (inputs : List Input) : State :=
  inputs.foldl (fun s x => (step s x).2) s

variable (step : State → Input → Answer × State)

theorem after_concat (s : State) (inputs : List Input) (x : Input) :
    after step s (inputs ++ [x]) = (step (after step s inputs) x).2 := by
  rw [after, List.foldl_append]
  rfl

/-- Inputs are answered part by part. -/
theorem run_append (s : State) (inputs later : List Input) :
    run step s (inputs ++ later) = run step s inputs ++ run step (after step s inputs) later := by
  induction inputs generalizing s with
  | nil => rfl
  | cons x rest ih =>
      rw [List.cons_append, run, run, ih, List.cons_append]
      rfl

theorem length_run (s : State) (inputs : List Input) :
    (run step s inputs).length = inputs.length := by
  induction inputs generalizing s with
  | nil => rfl
  | cons x rest ih => rw [run, List.length_cons, List.length_cons, ih]

/-- **An input is answered from the state before it.** -/
theorem getElem?_run (s : State) (earlier later : List Input) (x : Input) :
    (run step s (earlier ++ x :: later))[earlier.length]?
      = some (step (after step s earlier) x).1 := by
  rw [run_append, ← length_run step s earlier, List.getElem?_append_right (Nat.le_refl _),
    Nat.sub_self]
  rfl

end SchemaQuery.Machine
