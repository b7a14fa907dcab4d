/-
# What failing work leaves

Work that only reads cannot spoil its state (`ReadsOnly`), and work that never fails has
no failure to leave anything behind (`Succeeds`). Reading first and changing later, by
steps that cannot fail any more, keeps the state wherever a failure comes
(`ReadsOnly.bind_keepsOnFailure`). Work done aside counts as reading, whatever it does to
the state that it has for itself.

The result of work in place comes apart along its steps, like the outcome of a chain.
-/

import MultiSegmentWell.Work

namespace MultiSegmentWell

/-- The result of failed work is its failure. -/
theorem Worked.result_eq_error {σ α : Type} {w : Worked σ α} {e : SegmentError} :
    w.result.outcome = .error e ↔ w.outcome = .error e := by
  rw [result]
  cases w.outcome <;> simp [Except.map]

namespace Work

variable {σ τ α β : Type} {w : Work σ α} {next : α → Work σ β} {s : σ}

/-- After a success the rest of the work goes on from what was left. -/
theorem bind_of_ok {a : α} (h : (w s).outcome = .ok a) :
    (w >>= next) s =
      ⟨⟨(w s).findings ++ (next a (w s).left).findings, (next a (w s).left).outcome⟩,
        (next a (w s).left).left⟩ := by
  show bind w next s = _
  rw [bind, h]

/-- A failure ends the work with what was left. -/
theorem bind_of_error {e : SegmentError} (h : (w s).outcome = .error e) :
    (w >>= next) s = ⟨⟨(w s).findings, .error e⟩, (w s).left⟩ := by
  show bind w next s = _
  rw [bind, h]

/-- What follows a look is given the state. -/
theorem look_bind (next : σ → Work σ β) (s : σ) : (look >>= next) s = next s s := rfl

/-- What follows a change works on the changed state. -/
theorem change_bind (f : σ → σ) (next : Unit → Work σ β) (s : σ) :
    (change f >>= next) s = next () (f s) := rfl

/-- Where the first part only attempts something, the rest goes on with the same state. -/
theorem bind_eq_of_attempt {x : Except SegmentError α} (hw : w s = attempt x s)
    (next : α → Work σ β) : (w >>= next) s = (attempt x >>= next) s := by
  cases x with
  | ok a =>
    have hok : (w s).outcome = .ok a := by rw [hw]; rfl
    rw [bind_of_ok hok, hw]
    rfl
  | error e =>
    have herror : (w s).outcome = .error e := by rw [hw]; rfl
    rw [bind_of_error herror, hw]
    rfl

/-- Where all parts only attempt something, so does the whole. -/
theorem bind_eq_attempt {x : Except SegmentError α} {f : α → Except SegmentError β}
    (hw : w s = attempt x s) (hnext : ∀ a, next a s = attempt (f a) s) :
    (w >>= next) s = attempt (x >>= f) s := by
  rw [bind_eq_of_attempt hw]
  cases x with
  | ok a => exact hnext a
  | error e => rfl

/-- Two parts of work in turn come to what they come to one after the other. -/
theorem result_bind (w : Work σ Unit) (next : Unit → Work σ β) (s : σ) :
    ((w >>= next) s).result = (w s).result.bind fun t => (next () t).result := by
  cases h : (w s).outcome with
  | ok u => rw [bind_of_ok h, Worked.result, Worked.result, h]; rfl
  | error e => rw [bind_of_error h, Worked.result, Worked.result, h]; rfl

/-- An outcome goes to the rest of the work, with its findings. -/
theorem result_report_bind (r : Reported SegmentError α) (next : α → Work σ β) (s : σ) :
    ((report r >>= next) s).result = r.bind fun a => (next a s).result := by
  obtain ⟨findings, outcome⟩ := r
  cases outcome <;> rfl

/-- An attempt that fails ends the work, one that succeeds goes on. -/
theorem result_attempt_bind (x : Except SegmentError α) (next : α → Work σ β) (s : σ) :
    ((attempt x >>= next) s).result = (Reported.ofExcept x).bind fun a => (next a s).result :=
  result_report_bind _ next s

/-- What was built aside goes to the rest of the work. -/
theorem result_aside_bind (start : τ) (w : Work τ Unit) (next : τ → Work σ β) (s : σ) :
    ((aside start w >>= next) s).result = (w start).result.bind fun t => (next t s).result :=
  result_report_bind (w start).result next s

/-- The result of a step is that of its function. -/
theorem result_step (f : σ → Except SegmentError σ) (s : σ) :
    (step f s).result = .ofExcept (f s) := by
  rw [step, look_bind, result_attempt_bind]
  cases f s <;> rfl

/-- Work that leaves its state as it is. -/
def ReadsOnly (w : Work σ α) : Prop := ∀ s, (w s).left = s

/-- Work that does not fail. -/
def Succeeds (w : Work σ α) : Prop := ∀ s, ∃ a, (w s).outcome = .ok a

/-- Work that leaves its state as it is where it fails. -/
def KeepsOnFailure (w : Work σ α) : Prop := ∀ s e, (w s).outcome = .error e → (w s).left = s

namespace ReadsOnly

/-- Looking only reads. -/
theorem look : ReadsOnly (look : Work σ σ) := fun _ => rfl

/-- An attempt only reads. -/
theorem attempt (x : Except SegmentError α) : ReadsOnly (attempt x : Work σ α) := fun _ => rfl

/-- Work done aside reads only, whatever it is. -/
theorem aside (start : τ) (w : Work τ Unit) : ReadsOnly (aside start w : Work σ τ) := fun _ => rfl

/-- Work that only reads keeps the state when it fails. -/
theorem keepsOnFailure (h : ReadsOnly w) : KeepsOnFailure w := fun s _ _ => h s

/-- **Reading first:** what only reads can stand in front of work that keeps its state
where it fails. -/
theorem bind_keepsOnFailure (h : ReadsOnly w) (hnext : ∀ a, KeepsOnFailure (next a)) :
    KeepsOnFailure (w >>= next) := by
  intro s e he
  cases hw : (w s).outcome with
  | ok a =>
    rw [bind_of_ok hw, h] at he
    rw [bind_of_ok hw, h]
    exact hnext a s e he
  | error e => rw [bind_of_error hw, h]

end ReadsOnly

namespace Succeeds

/-- A change never fails. -/
theorem change (f : σ → σ) : Succeeds (change f) := fun _ => ⟨(), rfl⟩

/-- Work that never fails has no failure to spoil the state. -/
theorem keepsOnFailure (h : Succeeds w) : KeepsOnFailure w := by
  intro s e he
  obtain ⟨a, ha⟩ := h s
  rw [ha] at he
  cases he

end Succeeds

end Work
end MultiSegmentWell
