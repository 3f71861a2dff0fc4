import TraitClient.Error

/-!
# Laws of logged computations
-/
namespace TraitClient

variable {ε α β : Type}

theorem bind_eq_ok {x : Except ε α} {f : α → Except ε β} {b : β}
    (h : x >>= f = .ok b) : ∃ a, x = .ok a ∧ f a = .ok b := by
  cases x with
  | error e => cases h
  | ok a => exact ⟨a, rfl, h⟩

namespace Logged

theorem bind_of_ok {x : Logged ε α} {a : α} (h : x.result = .ok a) (f : α → Logged ε β) :
    x >>= f = ⟨x.log ++ (f a).log, (f a).result⟩ := by
  cases x with
  | mk log result =>
    cases h
    rfl

theorem bind_of_error {x : Logged ε α} {e : ε} (h : x.result = .error e) (f : α → Logged ε β) :
    x >>= f = ⟨x.log, .error e⟩ := by
  cases x with
  | mk log result =>
    cases h
    rfl

theorem result_bind (x : Logged ε α) (f : α → Logged ε β) :
    (x >>= f).result = x.result.bind fun a => (f a).result := by
  cases h : x.result with
  | error e => rw [bind_of_error h, Except.bind]
  | ok a => rw [bind_of_ok h, Except.bind]

theorem bind_result_eq_ok {x : Logged ε α} {f : α → Logged ε β} {b : β}
    (h : (x >>= f).result = .ok b) : ∃ a, x.result = .ok a ∧ (f a).result = .ok b := by
  rw [result_bind] at h
  exact bind_eq_ok h

@[simp] theorem result_pure (a : α) : (pure a : Logged ε α).result = .ok a := rfl

theorem bind_congr_result {x : Logged ε α} {f g : α → Logged ε β}
    (h : ∀ a, x.result = .ok a → f a = g a) : x >>= f = x >>= g := by
  cases hResult : x.result with
  | error e => rw [bind_of_error hResult, bind_of_error hResult]
  | ok a => rw [bind_of_ok hResult, bind_of_ok hResult, h a hResult]

theorem pure_bind (a : α) (f : α → Logged ε β) : pure a >>= f = f a := by
  rw [bind_of_ok rfl]
  rfl

theorem bind_pure (x : Logged ε α) : x >>= pure = x := by
  cases h : x.result with
  | error e =>
    rw [bind_of_error h, ← h]
  | ok a =>
    rw [bind_of_ok h]
    change (⟨x.log ++ [], .ok a⟩ : Logged ε α) = x
    rw [List.append_nil, ← h]

theorem bind_assoc {γ : Type} (x : Logged ε α) (f : α → Logged ε β) (g : β → Logged ε γ) :
    x >>= f >>= g = x >>= fun a => f a >>= g := by
  cases hx : x.result with
  | error e =>
    rw [bind_of_error hx, bind_of_error hx, bind_of_error rfl]
  | ok a =>
    rw [bind_of_ok hx, bind_of_ok hx]
    cases hf : (f a).result with
    | error e => rw [bind_of_error hf, bind_of_error rfl]
    | ok b => rw [bind_of_ok hf, bind_of_ok rfl, List.append_assoc]

instance : LawfulMonad (Logged ε) :=
  LawfulMonad.mk' (Logged ε) bind_pure pure_bind bind_assoc

end Logged
end TraitClient
