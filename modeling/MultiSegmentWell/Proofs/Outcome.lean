/-
# Outcomes of steps in turn

Work on a set is a chain of steps that is left at the first failure. A chain succeeds
exactly when every step does, so a successful outcome comes apart into the outcomes
of its steps (`bind_eq_ok`, `mapM_eq_ok`, `Reported.bind_eq_ok`); no proof has to
open the chain itself. A failed one comes apart into the steps that succeeded and the
first that failed (`bind_eq_error`, `mapM_eq_error`, `Reported.bind_eq_error`).
-/

import MultiSegmentWell.Finding
import Mathlib.Data.List.Forall2

namespace MultiSegmentWell

variable {ε δ α β : Type}

/-- Two steps in turn succeed when the first one does and the second one does with
what it gives. -/
theorem bind_eq_ok {x : Except ε α} {f : α → Except ε β} {b : β} :
    x >>= f = .ok b ↔ ∃ a, x = .ok a ∧ f a = .ok b := by
  cases x <;> simp [bind, Except.bind]

/-- A check and a step behind it succeed when both do. -/
theorem check_bind_eq_ok {x : Except ε Unit} {f : Unit → Except ε β} {b : β} :
    x >>= f = .ok b ↔ x = .ok () ∧ f () = .ok b := by
  rw [bind_eq_ok]
  exact ⟨fun ⟨_, hx, hf⟩ => ⟨hx, hf⟩, fun ⟨hx, hf⟩ => ⟨(), hx, hf⟩⟩

/-- A result put in another form comes from a result. -/
theorem map_eq_ok {x : Except ε α} {f : α → β} {b : β} :
    x.map f = .ok b ↔ ∃ a, x = .ok a ∧ f a = b := by
  cases x <;> simp [Except.map]

/-- A result that is known in another form, with what holds of all results. -/
theorem exists_ok_and {x : Except ε α} {f : α → β} {b : β} {P : α → Prop}
    (h : x.map f = .ok b) (hall : ∀ a, x = .ok a → P a) : ∃ a, x = .ok a ∧ f a = b ∧ P a := by
  obtain ⟨a, ha, hb⟩ := map_eq_ok.1 h
  exact ⟨a, ha, hb, hall a ha⟩

/-- Two steps in turn fail when the first one does, or the second one with what it gives. -/
theorem bind_eq_error {x : Except ε α} {f : α → Except ε β} {e : ε} :
    x >>= f = .error e ↔ x = .error e ∨ ∃ a, x = .ok a ∧ f a = .error e := by
  cases x <;> simp [bind, Except.bind]

/-- A result put in another form fails as it did. -/
theorem map_eq_error {x : Except ε α} {f : α → β} {e : ε} : x.map f = .error e ↔ x = .error e := by
  cases x <;> simp [Except.map]

/-- What succeeds has a result. -/
theorem exists_of_isOk {x : Except ε α} (h : x.isOk = true) : ∃ a, x = .ok a := by
  cases x with
  | ok a => exact ⟨a, rfl⟩
  | error e => cases h

/-- A step for every item of a list succeeds when all of them do. -/
theorem mapM_eq_ok {f : α → Except ε β} {xs : List α} {ys : List β} :
    xs.mapM f = .ok ys ↔ List.Forall₂ (fun x y => f x = .ok y) xs ys := by
  induction xs generalizing ys with
  | nil => simp [pure, Except.pure, eq_comm]
  | cons x xs ih =>
    rw [List.mapM_cons, bind_eq_ok]
    simp only [bind_eq_ok, ih]
    constructor
    · rintro ⟨y, hy, ys, hys, h⟩
      obtain rfl := Except.ok.inj h
      exact .cons hy hys
    · rintro (_ | ⟨hy, hys⟩)
      exact ⟨_, hy, _, hys, rfl⟩

/-- A step for every item of a list succeeds if it does for each of them, and what is known of
each result is known of all. -/
theorem exists_mapM_forall₂ {f : α → Except ε β} {R : α → β → Prop} {xs : List α}
    (h : ∀ x ∈ xs, ∃ y, f x = .ok y ∧ R x y) :
    ∃ ys, xs.mapM f = .ok ys ∧ List.Forall₂ R xs ys := by
  induction xs with
  | nil => exact ⟨[], rfl, .nil⟩
  | cons x xs ih =>
    obtain ⟨⟨y, hy, hxy⟩, hxs⟩ := List.forall_mem_cons.1 h
    obtain ⟨ys, hys, hall⟩ := ih hxs
    exact ⟨y :: ys, mapM_eq_ok.2 (.cons hy (mapM_eq_ok.1 hys)), .cons hxy hall⟩

/-- Steps that all succeed succeed in turn. -/
theorem exists_mapM_eq_ok {f : α → Except ε β} {xs : List α} (h : ∀ x ∈ xs, ∃ y, f x = .ok y) :
    ∃ ys, xs.mapM f = .ok ys := by
  obtain ⟨ys, hys, -⟩ := exists_mapM_forall₂ (R := fun _ _ => True) fun x hx =>
    (h x hx).imp fun _ hy => ⟨hy, trivial⟩
  exact ⟨ys, hys⟩

/-- A step for every item of a list fails at the first item for which it does. -/
theorem mapM_eq_error {f : α → Except ε β} {xs : List α} {e : ε} :
    xs.mapM f = .error e ↔ ∃ before x after, xs = before ++ x :: after ∧
      (∀ y ∈ before, ∃ b, f y = .ok b) ∧ f x = .error e := by
  constructor
  · intro h
    induction xs with
    | nil => cases h
    | cons x xs ih =>
      rw [List.mapM_cons] at h
      obtain hx | ⟨b, hb, h⟩ := bind_eq_error.1 h
      · exact ⟨[], x, xs, rfl, by simp, hx⟩
      · obtain hxs | ⟨_, -, h⟩ := bind_eq_error.1 h
        · obtain ⟨before, y, after, rfl, hbefore, hy⟩ := ih hxs
          exact ⟨x :: before, y, after, rfl, List.forall_mem_cons.2 ⟨⟨b, hb⟩, hbefore⟩, hy⟩
        · cases h
  · rintro ⟨before, x, after, rfl, hbefore, hx⟩
    obtain ⟨ys, hys⟩ := exists_mapM_eq_ok hbefore
    rw [List.mapM_append, List.mapM_cons, hys, hx]
    rfl

/-- A check of every item of a list passes when it does for each of them. -/
theorem forM_eq_ok {f : α → Except ε Unit} {xs : List α} :
    xs.forM f = .ok () ↔ ∀ x ∈ xs, f x = .ok () := by
  induction xs with
  | nil => simp [pure, Except.pure]
  | cons x xs ih =>
    rw [List.forM, check_bind_eq_ok, List.forall_mem_cons, ← ih]

/-- A check of every item of a list fails as it does for one of them. -/
theorem exists_of_forM_eq_error {f : α → Except ε Unit} {xs : List α} {e : ε}
    (h : xs.forM f = .error e) : ∃ x ∈ xs, f x = .error e := by
  induction xs with
  | nil => cases h
  | cons x xs ih =>
    obtain hx | ⟨_, -, hxs⟩ := bind_eq_error.1 h
    · exact ⟨x, List.mem_cons_self, hx⟩
    · obtain ⟨y, hy, hfails⟩ := ih hxs
      exact ⟨y, List.mem_cons_of_mem x hy, hfails⟩

/-- The items at one position of two lists go together. -/
theorem exists_getElem?_of_forall₂ {R : α → β → Prop} {xs : List α} {ys : List β}
    (h : List.Forall₂ R xs ys) {i : Nat} {x : α} (hx : xs[i]? = some x) :
    ∃ y, ys[i]? = some y ∧ R x y := by
  obtain ⟨hi, rfl⟩ := List.getElem?_eq_some_iff.1 hx
  have hj : i < ys.length := h.length_eq ▸ hi
  exact ⟨ys[i], List.getElem?_eq_getElem hj, h.get hi hj⟩

/-- Every item of a list goes with one of the other list. -/
theorem exists_of_forall₂ {R : α → β → Prop} {xs : List α} {ys : List β} (h : List.Forall₂ R xs ys)
    {x : α} (hx : x ∈ xs) : ∃ y ∈ ys, R x y := by
  obtain ⟨i, hi⟩ := List.getElem?_of_mem hx
  obtain ⟨y, hy, hxy⟩ := exists_getElem?_of_forall₂ h hi
  exact ⟨y, List.mem_of_getElem? hy, hxy⟩

namespace Reported

/-- Two reported steps in turn succeed when both do. -/
theorem bind_eq_ok {r : Reported ε α} {f : α → Reported ε β} {b : β} :
    (r >>= f).outcome = .ok b ↔ ∃ a, r.outcome = .ok a ∧ (f a).outcome = .ok b := by
  show (Reported.bind r f).outcome = _ ↔ _
  unfold Reported.bind
  cases r.outcome <;> simp

/-- Behind a step that succeeds the outcome is that of the next one. -/
theorem outcome_bind_of_ok {r : Reported ε α} {f : α → Reported ε β} {a : α}
    (h : r.outcome = .ok a) : (r >>= f).outcome = (f a).outcome := by
  show (Reported.bind r f).outcome = _
  unfold Reported.bind
  rw [h]

/-- A step that fails decides the outcome. -/
theorem outcome_bind_of_error {r : Reported ε α} {f : α → Reported ε β} {e : ε}
    (h : r.outcome = .error e) : (r >>= f).outcome = .error e := by
  show (Reported.bind r f).outcome = _
  unfold Reported.bind
  rw [h]

/-- Two reported steps in turn fail when the first one does, or the second one with what it
gives. -/
theorem bind_eq_error {r : Reported ε α} {f : α → Reported ε β} {e : ε} :
    (r >>= f).outcome = .error e ↔
      r.outcome = .error e ∨ ∃ a, r.outcome = .ok a ∧ (f a).outcome = .error e := by
  show (Reported.bind r f).outcome = _ ↔ _
  unfold Reported.bind
  cases r.outcome <;> simp

/-- Behind a step that succeeds the findings of the next one follow. -/
theorem findings_bind_of_ok {r : Reported ε α} {f : α → Reported ε β} {a : α}
    (h : r.outcome = .ok a) : (r >>= f).findings = r.findings ++ (f a).findings := by
  show (Reported.bind r f).findings = _
  unfold Reported.bind
  rw [h]

/-- Behind a step that fails nothing is found any more. -/
theorem findings_bind_of_error {r : Reported ε α} {f : α → Reported ε β} {e : ε}
    (h : r.outcome = .error e) : (r >>= f).findings = r.findings := by
  show (Reported.bind r f).findings = _
  unfold Reported.bind
  rw [h]

/-- Other words for failures change no result. -/
theorem outcome_mapError_eq_ok {f : ε → δ} {r : Reported ε α} {a : α} :
    (r.mapError f).outcome = .ok a ↔ r.outcome = .ok a := by
  show r.outcome.mapError f = _ ↔ _
  cases r.outcome <;> simp [Except.mapError]

/-- A failure in other words comes from a failure. -/
theorem outcome_mapError_eq_error {f : ε → δ} {r : Reported ε α} {e : δ} :
    (r.mapError f).outcome = .error e ↔ ∃ c, r.outcome = .error c ∧ f c = e := by
  show r.outcome.mapError f = _ ↔ _
  cases r.outcome <;> simp [Except.mapError]

/-- A value on its own is a success. -/
@[simp] theorem outcome_pure (a : α) : (pure a : Reported ε α).outcome = .ok a := rfl

/-- Telling a finding is a success. -/
@[simp] theorem outcome_tell (f : Finding) : (Reported.tell f : Reported ε Unit).outcome = .ok () :=
  rfl

end Reported
end MultiSegmentWell
