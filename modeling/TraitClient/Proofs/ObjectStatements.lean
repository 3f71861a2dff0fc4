import TraitClient.Proofs.CodeRuns

/-!
# Calls on one object

A body builds its request, and what goes into it, in variables that hold one object each.  A form of
statement is known by the calls that it makes on the object of such a variable, whatever calls there
were before and whatever a block has put above the variable.
-/
namespace TraitClient.Code

variable {α : Type} (rt : Runtime α)

/-- `?` on a call. -/
def attempt (call : Call α) : Run α PUnit :=
  if rt.succeeds call then pure ⟨⟩ else Run.stop (.failed call)

/-- Changes of an object, up to the first that fails. -/
def attempts (origin : String) (calls : List (Call α)) : Run α PUnit :=
  if canFail origin then forM calls (attempt rt) else pure ⟨⟩

variable {rt}

theorem attempts_nil (origin : String) : attempts rt origin [] = pure ⟨⟩ := by
  unfold attempts
  split <;> rfl

theorem attempts_of_safe {origin : String} (hSafe : canFail origin = false)
    (calls : List (Call α)) : attempts rt origin calls = pure ⟨⟩ := by
  rw [attempts, if_neg (by simp [hSafe])]

theorem attempts_append (origin : String) (calls calls' : List (Call α)) :
    attempts rt origin (calls ++ calls') =
      attempts rt origin calls >>= fun _ => attempts rt origin calls' := by
  unfold attempts
  split
  · rw [List.forM_append]
  · rfl

theorem canFail_of_builderMethod {origin name : String} (h : name ∈ builderMethods origin) :
    canFail origin = false ∧ name ≠ "flat_map" := by
  unfold builderMethods at h
  split at h
  · rename_i hOrigin
    subst hOrigin
    refine ⟨rfl, ?_⟩
    rintro rfl
    revert h
    decide
  · split at h
    · rename_i hOrigin
      subst hOrigin
      refine ⟨rfl, ?_⟩
      rintro rfl
      revert h
      decide
    · cases h

/-! ## Expressions -/

theorem eval_method {name : String} (hName : name ≠ "flat_map") (scope : Scope α) (receiver : Expr)
    (arguments : List Expr) : eval rt scope (.method receiver name arguments) =
      (eval rt scope receiver >>= fun v => evalAll rt scope arguments >>= fun vs =>
        Run.ofOption (method? rt v name vs)) := by
  rw [eval]
  exact fun _ hEq _ => hName hEq

theorem eval_iter {scope : Scope α} {e : Expr} {v : Value α} (hEval : eval rt scope e = pure v) :
    eval rt scope (.method e "iter" []) = Run.ofOption (method? rt v "iter" []) := by
  rw [eval_method (by decide), hEval]
  rfl

theorem exec_mutation {scope : Scope α} {e : Expr} {passesOn : Bool} {x name : String}
    {arguments : List Expr} {vs : List (Value α)}
    (h : mutation? e = some (passesOn, x, name, arguments))
    (hArguments : evalAll rt scope arguments = pure vs) :
    exec rt scope (.run e) = mutate rt scope passesOn x name vs := by
  have hExec : exec rt scope (.run e) =
      (evalAll rt scope arguments >>= fun vs => mutate rt scope passesOn x name vs) := by
    rw [exec, h]
  rw [hExec, hArguments, Run.pure_bind]

/-! ## Variables that hold an object -/

/-- A variable that holds an object, and the scope that it is bound in. -/
structure Slot (α : Type) where
  name : String
  isMut : Bool
  origin : Call α
  below : Scope α
  plain : identifier name = name

namespace Slot

def scope (s : Slot α) (calls : List (Call α)) : Scope α :=
  ⟨s.name, s.isMut, .object s.origin calls⟩ :: s.below

/-- Variables of blocks leave the variable of the object visible. -/
def Below (s : Slot α) (front : Scope α) : Prop := ∀ l ∈ front, l.name ≠ s.name

variable {s : Slot α} {front : Scope α}

theorem below_nil : s.Below [] := fun _ hl => absurd hl List.not_mem_nil

theorem lookup?_scope (hFront : s.Below front) (calls : List (Call α)) :
    (front ++ s.scope calls).lookup? s.name = some (.object s.origin calls) := by
  have hNone : front.find? (fun l => l.name == identifier s.name) = none :=
    List.find?_eq_none.mpr fun l hl => by simpa [s.plain] using hFront l hl
  rw [Scope.lookup?, List.find?_append, hNone, Option.none_or, scope,
    List.find?_cons_of_pos (by simp [s.plain])]
  rfl

theorem assign?_scope (hFront : s.Below front) (hMut : s.isMut = true)
    (calls calls' : List (Call α)) :
    (front ++ s.scope calls).assign? s.name (.object s.origin calls') =
      some (front ++ s.scope calls') := by
  induction front with
  | nil => simp [scope, Scope.assign?, s.plain, hMut]
  | cons l front ih =>
    have hApart : (l.name == identifier s.name) = false := by
      simpa [s.plain] using hFront l List.mem_cons_self
    rw [List.cons_append, Scope.assign?, hApart,
      ih fun l' hl' => hFront l' (List.mem_cons_of_mem l hl')]
    rfl

variable {before : List (Call α)} {name : String} {arguments : List Expr} {vs : List (Value α)}

/-- `object = object.name(arguments);`. -/
theorem exec_assign (hMut : s.isMut = true) (hFront : s.Below front)
    (hName : name ∈ builderMethods s.origin.1)
    (hArguments : evalAll rt (front ++ s.scope before) arguments = pure vs) :
    exec rt (front ++ s.scope before) (.assign s.name (.method (.var s.name) name arguments)) =
      attempts rt s.origin.1 [(name, vs)] >>= fun _ =>
        pure (front ++ s.scope (before ++ [(name, vs)])) := by
  obtain ⟨hSafe, hPlain⟩ := canFail_of_builderMethod hName
  have hMethod : method? rt (.object s.origin before) name vs =
      some (.object s.origin (before ++ [(name, vs)])) := by
    rw [method?, if_pos (List.contains_iff_mem.mpr hName)]
  rw [exec, eval_method hPlain, eval, lookup?_scope hFront, Run.ofOption_some, Run.pure_bind,
    hArguments, Run.pure_bind, hMethod, Run.ofOption_some, Run.pure_bind,
    assign?_scope hFront hMut, attempts_of_safe hSafe]
  rfl

/-- `object.name(arguments);`, with `?` where it can fail. -/
theorem exec_run (hMut : s.isMut = true) (hFront : s.Below front)
    (hName : name ∈ mutatingMethods s.origin.1)
    (hArguments : evalAll rt (front ++ s.scope before) arguments = pure vs) :
    exec rt (front ++ s.scope before)
        (.run (if canFail s.origin.1 then .propagate (.method (.var s.name) name arguments)
          else .method (.var s.name) name arguments)) =
      attempts rt s.origin.1 [(name, vs)] >>= fun _ =>
        pure (front ++ s.scope (before ++ [(name, vs)])) := by
  have hMutate : mutate rt (front ++ s.scope before) (canFail s.origin.1) s.name name vs =
      attempts rt s.origin.1 [(name, vs)] >>= fun _ =>
        pure (front ++ s.scope (before ++ [(name, vs)])) := by
    rw [mutate, lookup?_scope hFront]
    simp only [List.contains_iff_mem.mpr hName, beq_self_eq_true, Bool.and_self, if_true]
    rw [assign?_scope hFront hMut, attempts]
    cases canFail s.origin.1 with
    | false => rfl
    | true =>
      cases hSucceeds : rt.succeeds (name, vs) with
      | true => simp [attempt, hSucceeds]
      | false =>
        simp only [attempt, hSucceeds, Bool.not_false, Bool.and_self, if_true, List.forM_cons]
        rfl
  cases hFails : canFail s.origin.1 with
  | true => rw [if_pos rfl, exec_mutation rfl hArguments, ← hFails, hMutate]
  | false => rw [if_neg Bool.false_ne_true, exec_mutation rfl hArguments, ← hFails, hMutate]

end Slot

/-! ## Statements on a variable -/

section

variable (rt)

/-- Statements that make calls on the object, up to the first that fails. -/
def Adds (s : Slot α) (statements : List Statement) (calls : List (Call α)) : Prop :=
  ∀ before, execAll rt (s.scope before) statements =
    attempts rt s.origin.1 calls >>= fun _ => pure (s.scope (before ++ calls))

/-- A statement that makes one call with the value of an expression, inside of blocks as well. -/
def AddsFor (s : Slot α) (statement : Expr → Statement) (d : Data α) (call : Call α) : Prop :=
  ∀ front before e, s.Below front → eval rt (front ++ s.scope before) e = pure (.data d) →
    exec rt (front ++ s.scope before) (statement e) =
      attempts rt s.origin.1 [call] >>= fun _ => pure (front ++ s.scope (before ++ [call]))

end

namespace Adds

variable {s : Slot α} {a b : List Statement} {calls calls' : List (Call α)}

theorem nil : Adds rt s [] [] := by
  intro before
  rw [attempts_nil, List.append_nil]
  rfl

theorem execAll_append (scope : Scope α) (a b : List Statement) :
    execAll rt scope (a ++ b) = execAll rt scope a >>= fun scope => execAll rt scope b := by
  induction a generalizing scope with
  | nil => rfl
  | cons st a ih => rw [List.cons_append, execAll, execAll, Run.bind_assoc]; simp only [ih]

theorem append (hA : Adds rt s a calls) (hB : Adds rt s b calls') :
    Adds rt s (a ++ b) (calls ++ calls') := by
  intro before
  rw [execAll_append, hA before, attempts_append, Run.bind_assoc, Run.bind_assoc]
  simp only [Run.pure_bind, hB _, List.append_assoc]

theorem filterMap {ι : Type} {ps : List ι} {statement? : ι → Option Statement}
    {callsOf : ι → List (Call α)}
    (h : ∀ p ∈ ps, Adds rt s (statement? p).toList (callsOf p)) :
    Adds rt s (ps.filterMap statement?) (ps.flatMap callsOf) := by
  induction ps with
  | nil => exact nil
  | cons p ps ih =>
    have hRest := ih fun q hq => h q (List.mem_cons_of_mem _ hq)
    have hHead := h p List.mem_cons_self
    rw [List.flatMap_cons, List.filterMap_cons]
    cases hStatement : statement? p with
    | none =>
      rw [hStatement] at hHead
      exact hHead.append hRest
    | some st =>
      rw [hStatement] at hHead
      exact hHead.append hRest

theorem assign {name : String} {arguments : List Expr} {vs : List (Value α)}
    (hMut : s.isMut = true) (hName : name ∈ builderMethods s.origin.1)
    (hArguments : ∀ before, evalAll rt (s.scope before) arguments = pure vs) :
    Adds rt s [.assign s.name (.method (.var s.name) name arguments)] [(name, vs)] := by
  intro before
  have hExec : exec rt (s.scope before)
      (.assign s.name (.method (.var s.name) name arguments)) = _ :=
    Slot.exec_assign hMut Slot.below_nil hName (hArguments before)
  rw [execAll, hExec, Run.bind_assoc]
  rfl

theorem eq_nil (h : Adds rt s [] calls) : calls = [] := by
  have hRun := congrArg Run.result (h [])
  cases hAttempts : attempts rt s.origin.1 calls with
  | mk sent result =>
    cases result with
    | error stop =>
      rw [hAttempts] at hRun
      cases hRun
    | ok u =>
      rw [hAttempts] at hRun
      have hScope : s.scope [] = s.scope ([] ++ calls) := Except.ok.inj hRun
      simpa [Slot.scope] using hScope

/-- A variable has to be mutable only where there are statements. -/
theorem of_mut (h : Adds rt { s with isMut := true } a calls) :
    Adds rt { s with isMut := !a.isEmpty } a calls := by
  cases a with
  | nil => exact h.eq_nil ▸ nil
  | cons st rest => exact h

end Adds

namespace AddsFor

variable {s : Slot α} {statement : Expr → Statement} {call : Data α → Call α} {bound : String}
  {source : Expr}

theorem assign {name : String} {arguments : Expr → List Expr} {vs : List (Value α)} {d : Data α}
    (hMut : s.isMut = true) (hName : name ∈ builderMethods s.origin.1)
    (hArguments : ∀ scope e, eval rt scope e = pure (.data d) →
      evalAll rt scope (arguments e) = pure vs) :
    AddsFor rt s (fun e => .assign s.name (.method (.var s.name) name (arguments e))) d
      (name, vs) := fun _ _ e hFront hEval =>
  Slot.exec_assign hMut hFront hName (hArguments _ e hEval)

theorem run {name : String} {arguments : Expr → List Expr} {vs : List (Value α)} {d : Data α}
    (hMut : s.isMut = true) (hName : name ∈ mutatingMethods s.origin.1)
    (hArguments : ∀ scope e, eval rt scope e = pure (.data d) →
      evalAll rt scope (arguments e) = pure vs) :
    AddsFor rt s (fun e => .run (if canFail s.origin.1
        then .propagate (.method (.var s.name) name (arguments e))
        else .method (.var s.name) name (arguments e))) d (name, vs) := fun _ _ e hFront hEval =>
  Slot.exec_run hMut hFront hName (hArguments _ e hEval)

theorem execAll_block {d : Data α} (h : AddsFor rt s statement d (call d))
    (hBound : bound ≠ s.name) (hPlain : identifier bound = bound) (before : List (Call α)) :
    (execAll rt ((s.scope before).bind bound false (.data d)) [statement (.var bound)] >>=
        fun inner => pure ((s.scope before).leave inner)) =
      attempts rt s.origin.1 [call d] >>= fun _ => pure (s.scope (before ++ [call d])) := by
  have hFront : s.Below [⟨bound, false, .data d⟩] := by
    intro l hl
    obtain rfl := List.mem_singleton.mp hl
    exact hBound
  have hScope : (s.scope before).bind bound false (.data d) =
      [⟨bound, false, .data d⟩] ++ s.scope before := by
    rw [Scope.bind, hPlain]
    rfl
  have hVar : eval rt ([⟨bound, false, .data d⟩] ++ s.scope before) (.var bound) =
      pure (.data d) := by
    simp [eval, Scope.lookup?, hPlain]
  have hLeave : (s.scope before).leave ([⟨bound, false, .data d⟩] ++ s.scope (before ++ [call d])) =
      s.scope (before ++ [call d]) := by
    simp [Scope.leave, Slot.scope]
  rw [hScope, execAll, h _ before _ hFront hVar, Run.bind_assoc, Run.bind_assoc]
  simp only [Run.pure_bind, execAll, hLeave]

theorem adds {d : Data α} (h : AddsFor rt s statement d (call d))
    (hSource : ∀ before, eval rt (s.scope before) source = pure (.data d)) :
    Adds rt s [statement source] [call d] := by
  intro before
  have hExec : exec rt (s.scope before) (statement source) = _ :=
    h [] before source Slot.below_nil (hSource before)
  rw [execAll, hExec, Run.bind_assoc]
  rfl

theorem ifSome (statement : Expr → Statement) {argument : Option (Data α)}
    (h : ∀ d ∈ argument, AddsFor rt s statement d (call d)) (hBound : bound ≠ s.name)
    (hPlain : identifier bound = bound)
    (hSource : ∀ before, eval rt (s.scope before) source =
      pure (argument.elim .absent .present)) :
    Adds rt s [.ifSome bound source [statement (.var bound)]] (argument.toList.map call) := by
  intro before
  rw [execAll, exec, hSource before, Run.pure_bind]
  cases argument with
  | none =>
    rw [Option.toList_none, List.map_nil, attempts_nil, List.append_nil]
    rfl
  | some d =>
    have hBlock := (h d rfl).execAll_block hBound hPlain before
    simp only [Option.elim_some, Option.toList_some, List.map_cons, List.map_nil]
    rw [hBlock, Run.bind_assoc]
    rfl

theorem forEach (statement : Expr → Statement) {ds : List (Data α)} (v : Value α)
    (h : ∀ d ∈ ds, AddsFor rt s statement d (call d)) (hBound : bound ≠ s.name)
    (hPlain : identifier bound = bound)
    (hSource : ∀ before, eval rt (s.scope before) source = pure v)
    (hItems : v.items? = some (ds.map .data)) :
    Adds rt s [.forEach bound source [statement (.var bound)]] (ds.map call) := by
  have hLoop (before : List (Call α)) :
      (ds.map Value.data).foldlM (fun scope item => do
          let inner ← execAll rt (scope.bind bound false item) [statement (.var bound)]
          pure (scope.leave inner)) (s.scope before) =
        attempts rt s.origin.1 (ds.map call) >>= fun _ =>
          pure (s.scope (before ++ ds.map call)) := by
    clear hItems
    induction ds generalizing before with
    | nil =>
      rw [List.map_nil, List.map_nil, attempts_nil, List.append_nil]
      rfl
    | cons d ds ih =>
      have hBlock := (h d List.mem_cons_self).execAll_block hBound hPlain before
      have hCalls : (d :: ds).map call = [call d] ++ ds.map call := rfl
      rw [List.map_cons, List.foldlM_cons, hBlock, Run.bind_assoc, hCalls, attempts_append,
        Run.bind_assoc]
      simp only [Run.pure_bind, ih fun d' hd' => h d' (List.mem_cons_of_mem d hd'),
        List.append_assoc]
  intro before
  rw [execAll, exec, hSource before, Run.pure_bind, hItems, Run.ofOption_some, Run.pure_bind,
    hLoop before, Run.bind_assoc]
  rfl

end AddsFor

end TraitClient.Code
