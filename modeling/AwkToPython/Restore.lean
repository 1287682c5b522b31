/-!
# Computations whose state outlives their errors

An `EStateM` computation that fails still leaves a state behind. What has to be
put back afterwards is put back on both ways out.
-/
namespace AwkToPython

/-- Run a computation and then change the state, whether it succeeded or not. -/
def restoring {ε σ α : Type} (x : EStateM ε σ α) (restore : σ → σ) : EStateM ε σ α := fun s =>
  match x s with
  | .ok a s => .ok a (restore s)
  | .error e s => .error e (restore s)

/-- A pure result as a computation that leaves the state alone. -/
def liftExcept {ε σ α : Type} : Except ε α → EStateM ε σ α
  | .ok a => pure a
  | .error e => throw e

end AwkToPython
