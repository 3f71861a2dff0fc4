import TraitClient.Generation.Run
import TraitClient.Proofs.HierarchyWalk

/-!
# Single errors

Each way in which a service can fail is one error.  Only a whole run reports several as one.
-/
namespace TraitClient

def GenerationError.IsSingle : GenerationError → Prop
  | .multiple _ => False
  | _ => True

section FailsSingly

variable {α β : Type}

def FailsSingly : Except GenerationError α → Prop
  | .ok _ => True
  | .error e => e.IsSingle

theorem FailsSingly.isSingle {x : Except GenerationError α} {e : GenerationError}
    (h : FailsSingly x) (he : x = .error e) : e.IsSingle := by
  rw [he] at h
  exact h

theorem FailsSingly.bind {x : Except GenerationError α} {f : α → Except GenerationError β}
    (hx : FailsSingly x) (hf : ∀ a, FailsSingly (f a)) : FailsSingly (x.bind f) := by
  cases x with
  | error e => exact hx
  | ok a => exact hf a

theorem failsSingly_foldlM {σ : Type} {step : σ → α → Logged GenerationError σ} {xs : List α}
    (h : ∀ s, ∀ a ∈ xs, FailsSingly (step s a).result) (s : σ) :
    FailsSingly (xs.foldlM step s).result := by
  induction xs generalizing s with
  | nil => trivial
  | cons a xs ih =>
    rw [List.foldlM_cons, Logged.result_bind]
    exact (h s a List.mem_cons_self).bind
      (ih fun s a ha => h s a (List.mem_cons_of_mem _ ha))

end FailsSingly

namespace Extraction

theorem failsSingly_ownMethods (c : Context) (interface : String) (e : TraitEntry)
    (inherited : Bool) (d : String) (fs : List Source.TraitFunction) (found : List Method) :
    FailsSingly (ownMethods c interface e inherited d fs found).result := by
  induction fs generalizing found with
  | nil => trivial
  | cons f rest ih =>
    rw [ownMethods]
    cases methodOf? c.table e.imports d f with
    | error fault => trivial
    | ok method =>
      cases method with
      | none =>
        simp only
        split
        · rw [Logged.result_bind]
          exact ih found
        · exact ih found
      | some m =>
        simp only
        split
        · exact ih found
        · exact ih _

theorem failsSingly_collect (c : Context) (interface : String) (fuel : Nat) (e : TraitEntry)
    (found : Collected) : FailsSingly (collect c interface fuel e found).result := by
  induction fuel generalizing e found with
  | zero => trivial
  | succ fuel ih =>
    by_cases hVisited : e.cratePath ∈ found.visited
    · rw [collect_of_visited hVisited]
      trivial
    · rw [collect_of_new hVisited, Logged.result_bind]
      refine FailsSingly.bind ?_ (failsSingly_foldlM fun found t _ => ih t found)
      rw [takeTrait, Logged.result_bind]
      exact FailsSingly.bind (failsSingly_ownMethods ..) fun _ => trivial

theorem failsSingly_interfaceOf (c : Context) (e : TraitEntry) :
    FailsSingly (interfaceOf c e).result := by
  unfold interfaceOf
  split
  · trivial
  · rw [Logged.result_bind]
    exact FailsSingly.bind (failsSingly_collect ..) fun _ => trivial

end Extraction

namespace BodyEncoding

theorem failsSingly_partSpecs (interface : String) (m : Method) (types : RuntimeTypes)
    (ps : List Parameter) : FailsSingly (partSpecs interface m types ps) := by
  induction ps with
  | nil => trivial
  | cons p rest ih =>
    refine FailsSingly.bind ?_ fun _ => FailsSingly.bind ih fun _ => trivial
    unfold partSpec
    split
    · trivial
    · trivial

theorem failsSingly_ofMethod (interface : String) (types : RuntimeTypes) (m : Method) :
    FailsSingly (ofMethod interface types m) := by
  unfold ofMethod
  split
  · trivial
  · exact FailsSingly.bind (failsSingly_partSpecs ..) fun _ => trivial
  · trivial
  · trivial

theorem failsSingly_ofMethods (interface : String) (types : RuntimeTypes) (ms : List Method) :
    FailsSingly (ofMethods interface types ms) := by
  induction ms with
  | nil => trivial
  | cons m rest ih =>
    exact FailsSingly.bind (failsSingly_ofMethod interface types m) fun _ =>
      FailsSingly.bind ih fun _ => trivial

end BodyEncoding

theorem Plan.failsSingly_ofInterface (types : RuntimeTypes) (i : Interface) :
    FailsSingly (Plan.ofInterface types i) := by
  unfold Plan.ofInterface
  split
  · trivial
  · exact FailsSingly.bind (BodyEncoding.failsSingly_ofMethods ..) fun _ => trivial

theorem Emission.isSingle_of_unit {runtime : Source.PathExpr} {i : Interface}
    {encodings : List BodyEncoding} {e : GenerationError}
    (h : Emission.unit runtime i encodings = .error (.error e)) : e.IsSingle := by
  simp only [Emission.unit] at h
  split at h
  · cases h
    trivial
  · split at h
    · cases h
    · split at h
      · cases h
        trivial
      · split at h <;> cases h

end TraitClient
