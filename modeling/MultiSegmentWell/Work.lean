/-
# Work in place

Work on a state reads and changes it step by step. Where a step fails the work ends
there, and the state stays as the steps before have left it: nothing is taken back
unless the work itself does so. Work that has to leave its state alone if it fails
looks first and changes later, or is done aside, on a state of its own.
-/

import MultiSegmentWell.Finding

namespace MultiSegmentWell

/-- What work comes to, and the state that it leaves, also where it fails. -/
structure Worked (σ α : Type) extends Reported SegmentError α where
  left : σ

/-- The state after work that succeeded, or the failure. -/
def Worked.result {σ α : Type} (w : Worked σ α) : Reported SegmentError σ :=
  ⟨w.findings, w.outcome.map fun _ => w.left⟩

/-- Work on a state in place. -/
def Work (σ α : Type) : Type := σ → Worked σ α

namespace Work

variable {σ τ α β : Type}

/-- Work that goes on with the state that the first part has left, if that succeeds. -/
def bind (w : Work σ α) (next : α → Work σ β) : Work σ β := fun s =>
  match (w s).outcome with
  | .error e => ⟨⟨(w s).findings, .error e⟩, (w s).left⟩
  | .ok a =>
    let rest := next a (w s).left
    ⟨⟨(w s).findings ++ rest.findings, rest.outcome⟩, rest.left⟩

instance : Monad (Work σ) where
  pure a := fun s => ⟨pure a, s⟩
  bind := bind

/-- The state as it is. -/
def look : Work σ σ := fun s => ⟨pure s, s⟩

/-- An outcome with its findings; the state stays as it is. -/
def report (r : Reported SegmentError α) : Work σ α := fun s => ⟨r, s⟩

/-- An outcome without findings. -/
def attempt (outcome : Except SegmentError α) : Work σ α := report (.ofExcept outcome)

/-- A failure. -/
def fail (e : SegmentError) : Work σ α := attempt (.error e)

/-- A change of the state. -/
def change (f : σ → σ) : Work σ Unit := fun s => ⟨pure (), f s⟩

/-- A change of the state that may fail before anything is changed. -/
def step (f : σ → Except SegmentError σ) : Work σ Unit := do
  let s ← look
  let t ← attempt (f s)
  change fun _ => t

/-- Work on a state of its own, which is the result if the work succeeds and lost if it
fails. -/
def aside (start : τ) (w : Work τ Unit) : Work σ τ := fun s => ⟨(w start).result, s⟩

/-- Work after whose failure the state is changed. -/
def onFailure (w : Work σ α) (f : σ → σ) : Work σ α := fun s =>
  let done := w s
  match done.outcome with
  | .error _ => { done with left := f done.left }
  | .ok _ => done

end Work
end MultiSegmentWell
