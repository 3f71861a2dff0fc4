import TraitClient.Generation.Analysis
import TraitClient.Proofs.LoggedLaws

/-!
# Attempts

What comes of some attempts that may fail, and of a later attempt with each success.
-/
namespace TraitClient

section Attempts

variable {ε ε' α β : Type}

def successes (xs : List (Except ε α)) : List α := xs.filterMap (·.toOption)

def failures (xs : List (Except ε α)) : List ε :=
  xs.filterMap fun
    | .error e => some e
    | .ok _ => none

@[simp] theorem successes_ok_cons (a : α) (xs : List (Except ε α)) :
    successes (.ok a :: xs) = a :: successes xs := rfl

@[simp] theorem successes_error_cons (e : ε) (xs : List (Except ε α)) :
    successes (.error e :: xs) = successes xs := rfl

@[simp] theorem failures_ok_cons (a : α) (xs : List (Except ε α)) :
    failures (.ok a :: xs) = failures xs := rfl

@[simp] theorem failures_error_cons (e : ε) (xs : List (Except ε α)) :
    failures (.error e :: xs) = e :: failures xs := rfl

theorem mem_failures {e : ε} {xs : List (Except ε α)} : e ∈ failures xs ↔ .error e ∈ xs := by
  induction xs with
  | nil => simp [failures]
  | cons x xs ih => cases x <;> simp [ih]

theorem length_successes_failures (xs : List (Except ε α)) :
    (successes xs).length + (failures xs).length = xs.length := by
  induction xs with
  | nil => rfl
  | cons x xs ih =>
    cases x with
    | error e =>
      simp only [successes_error_cons, failures_error_cons, List.length_cons]
      omega
    | ok a =>
      simp only [successes_ok_cons, failures_ok_cons, List.length_cons]
      omega

theorem map_toOption_of_no_failures {xs : List (Except ε α)} (h : failures xs = []) :
    xs.map (·.toOption) = (successes xs).map some := by
  induction xs with
  | nil => rfl
  | cons x xs ih =>
    cases x with
    | error e => cases h
    | ok a =>
      rw [successes_ok_cons, List.map_cons, List.map_cons, ih h]
      rfl

theorem firstError?_eq_head? (xs : List (Except ε α)) :
    Generator.firstError? xs = (failures xs).head? := by
  induction xs with
  | nil => rfl
  | cons x xs ih => cases x <;> simp [Generator.firstError?, ih]

/-- What is attempted with each success of an earlier attempt. -/
def andThen (lift : ε → ε') (next : α → Except ε' β) : Except ε α → Except ε' β
  | .error e => .error (lift e)
  | .ok a => next a

theorem successes_andThen (lift : ε → ε') (next : α → Except ε' β) (xs : List (Except ε α)) :
    successes (xs.map (andThen lift next)) = successes ((successes xs).map next) := by
  induction xs with
  | nil => rfl
  | cons x xs ih =>
    cases x with
    | error e => exact ih
    | ok a =>
      rw [successes_ok_cons, List.map_cons, List.map_cons, andThen]
      cases next a <;> simp [ih]

theorem failures_andThen (lift : ε → ε') (next : α → Except ε' β) (xs : List (Except ε α)) :
    ((failures xs).map lift ++ failures ((successes xs).map next)).Perm
      (failures (xs.map (andThen lift next))) := by
  induction xs with
  | nil => exact .refl _
  | cons x xs ih =>
    cases x with
    | error e => exact ih.cons (lift e)
    | ok a =>
      rw [successes_ok_cons, failures_ok_cons, List.map_cons, List.map_cons, andThen]
      cases next a with
      | ok b => exact ih
      | error e => exact List.perm_middle.trans (ih.cons e)

end Attempts

theorem settle_failFast {α : Type} (xs : List (Except GenerationError α)) :
    (settle true xs).result =
      match Generator.firstError? xs with
      | some e => .error e
      | none => .ok (successes xs, []) := by
  induction xs with
  | nil => rfl
  | cons x xs ih =>
    cases x with
    | error e => rfl
    | ok a =>
      rw [settle, Logged.result_bind, ih, Generator.firstError?]
      cases Generator.firstError? xs <;> rfl

theorem settle_keepGoing {α : Type} (xs : List (Except GenerationError α)) :
    (settle false xs).result = .ok (successes xs, failures xs) := by
  induction xs with
  | nil => rfl
  | cons x xs ih =>
    cases x with
    | error e =>
      rw [settle]
      simp only [Bool.false_eq_true, if_false]
      rw [Logged.result_bind]
      change (settle false xs >>= fun settled => pure (settled.1, e :: settled.2)).result = _
      rw [Logged.result_bind, ih]
      rfl
    | ok a =>
      rw [settle, Logged.result_bind, ih]
      rfl

theorem settle_eq_ok {α : Type} {failFast : Bool} {xs : List (Except GenerationError α)}
    {good : List α} {bad : List GenerationError}
    (h : (settle failFast xs).result = .ok (good, bad)) : good = successes xs ∧ bad = failures xs := by
  cases failFast with
  | false =>
    rw [settle_keepGoing] at h
    cases h
    exact ⟨rfl, rfl⟩
  | true =>
    rw [settle_failFast, firstError?_eq_head?] at h
    cases hFailures : failures xs with
    | nil =>
      rw [hFailures] at h
      cases h
      exact ⟨rfl, rfl⟩
    | cons e more =>
      rw [hFailures] at h
      cases h

end TraitClient
