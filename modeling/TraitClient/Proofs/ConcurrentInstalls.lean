import Mathlib.Data.List.Induction
import Mathlib.Logic.Function.Basic
import TraitClient.Client.Context

/-!
# Installs that run at the same time

Each lock section of a call is one step.  An install that keeps the base URL has two of them: it reads
the base URL in the first one and stores it in the second one, whatever was stored in between.
-/
namespace TraitClient.Contexts

variable {γ : Type}

inductive Call (γ : Type)
  | install (handle : Nat) (client : γ)
  | installWithBaseUrl (handle : Nat) (client : γ) (baseUrl : String)
  | reset (handle : Nat)
  deriving Repr, DecidableEq

def Call.handle : Call γ → Nat
  | .install handle _ => handle
  | .installWithBaseUrl handle _ _ => handle
  | .reset handle => handle

/-- What a call does that no other one comes between. -/
def Call.perform (c : Contexts γ) : Call γ → Contexts γ
  | .install handle client => c.install handle client
  | .installWithBaseUrl handle client baseUrl => c.installWithBaseUrl handle client baseUrl
  | .reset handle => c.reset handle

/-- The turns of a caller, one for each lock section of its call. -/
def Call.turns {ι : Type} (i : ι) : Call γ → List ι
  | .install _ _ => [i, i]
  | .installWithBaseUrl _ _ _ => [i]
  | .reset _ => [i]

/-! ## Copies of one context -/

section OneCell

/-- All calls are made on copies of one context. -/
structure OneCell {ι : Type} (calls : ι → Call γ) (cell : Nat) (c : Contexts γ) : Prop where
  known : cell < c.cells.length
  handles : ∀ i, c.handles[(calls i).handle]? = some cell

variable {ι : Type} {calls : ι → Call γ} {cell : Nat} {c : Contexts γ}

theorem OneCell.setCell_eq (h : OneCell calls cell c) (i : ι) (content : Option (Installed γ)) :
    c.setCell (calls i).handle content = { c with cells := c.cells.set cell content } := by
  rw [Contexts.setCell, h.handles i]

theorem OneCell.setCell (h : OneCell calls cell c) (i : ι) (content : Option (Installed γ)) :
    OneCell calls cell (c.setCell (calls i).handle content) := by
  rw [h.setCell_eq]
  constructor
  · rw [List.length_set]
    exact h.known
  · exact h.handles

theorem OneCell.installed?_setCell (h : OneCell calls cell c) (i j : ι)
    (content : Option (Installed γ)) :
    (c.setCell (calls i).handle content).installed? (calls j).handle = content := by
  rw [h.setCell_eq, Contexts.installed?, h.handles j, Option.bind_some,
    List.getElem?_set_self h.known]
  rfl

end OneCell

/-- How far a call has come.  Only an install stops with a base URL that it has yet to store. -/
inductive Progress
  | waiting
  | holding (baseUrl : String)
  | done
  deriving Repr, DecidableEq

structure Concurrent (γ ι : Type) where
  contexts : Contexts γ
  progress : ι → Progress

namespace Concurrent

variable {ι : Type}

def start (c : Contexts γ) : Concurrent γ ι := ⟨c, fun _ => .waiting⟩

/-- What the next lock section of a caller stores, if it does not read. -/
def stored? (calls : ι → Call γ) (s : Concurrent γ ι) (i : ι) : Option (Option (Installed γ)) :=
  match calls i, s.progress i with
  | .install _ client, .holding baseUrl => some (some ⟨client, baseUrl⟩)
  | .installWithBaseUrl _ client baseUrl, .waiting => some (some ⟨client, baseUrl⟩)
  | .reset _, .waiting => some none
  | _, _ => none

theorem stored?_install {calls : ι → Call γ} {s : Concurrent γ ι} {i : ι} {handle : Nat}
    {client : γ} (hCall : calls i = .install handle client) {content : Option (Installed γ)} :
    stored? calls s i = some content ↔
      ∃ baseUrl, s.progress i = .holding baseUrl ∧ content = some ⟨client, baseUrl⟩ := by
  rw [stored?, hCall]
  cases s.progress i with
  | holding baseUrl => simp [eq_comm]
  | waiting => simp
  | done => simp

variable [DecidableEq ι]

def advance (s : Concurrent γ ι) (i : ι) (contexts : Contexts γ) (progress : Progress) :
    Concurrent γ ι :=
  ⟨contexts, Function.update s.progress i progress⟩

section Advance

variable (s : Concurrent γ ι) (i : ι) (contexts : Contexts γ) (progress : Progress)

@[simp] theorem advance_contexts : (s.advance i contexts progress).contexts = contexts := rfl

@[simp] theorem advance_progress_self : (s.advance i contexts progress).progress i = progress :=
  Function.update_self ..

@[simp] theorem advance_progress_of_ne {j : ι} (h : j ≠ i) :
    (s.advance i contexts progress).progress j = s.progress j :=
  Function.update_of_ne h ..

end Advance

variable (calls : ι → Call γ)

def step? (s : Concurrent γ ι) (i : ι) : Option (Concurrent γ ι) :=
  match calls i, s.progress i with
  | .install handle _, .waiting =>
    some (s.advance i s.contexts (.holding ((s.contexts.baseUrl? handle).getD "")))
  | .install handle client, .holding baseUrl =>
    some (s.advance i (s.contexts.installWithBaseUrl handle client baseUrl) .done)
  | .installWithBaseUrl handle client baseUrl, .waiting =>
    some (s.advance i (s.contexts.installWithBaseUrl handle client baseUrl) .done)
  | .reset handle, .waiting => some (s.advance i (s.contexts.reset handle) .done)
  | _, _ => none

def run? (s : Concurrent γ ι) : List ι → Option (Concurrent γ ι)
  | [] => some s
  | i :: schedule => (step? calls s i).bind (run? · schedule)

def stored (s : Concurrent γ ι) : List ι → List (Option (Installed γ))
  | [] => []
  | i :: schedule =>
    match step? calls s i with
    | some s' => (stored? calls s i).toList ++ stored s' schedule
    | none => []

/-! ## One section -/

variable {calls} {cell : Nat} {c : Contexts γ} {s s' : Concurrent γ ι} {i : ι}

/-- A section reads and keeps what it read, or it stores something and is the last one of its call. -/
theorem step?_cases (h : step? calls s i = some s') :
    (∃ handle client, calls i = .install handle client ∧ s.progress i = .waiting ∧
      stored? calls s i = none ∧
      s' = s.advance i s.contexts (.holding ((s.contexts.baseUrl? handle).getD ""))) ∨
    ∃ content, stored? calls s i = some content ∧
      s' = s.advance i (s.contexts.setCell (calls i).handle content) .done := by
  unfold step? at h
  unfold stored?
  split at h
  case h_1 handle client hCall hProgress =>
    refine .inl ⟨handle, client, hCall, hProgress, ?_, (Option.some.inj h).symm⟩
    rw [hCall, hProgress]
  case h_2 handle client baseUrl hCall hProgress =>
    refine .inr ⟨some ⟨client, baseUrl⟩, ?_, ?_⟩
    · rw [hCall, hProgress]
    · rw [hCall, ← Option.some.inj h]
      rfl
  case h_3 handle client baseUrl hCall hProgress =>
    refine .inr ⟨some ⟨client, baseUrl⟩, ?_, ?_⟩
    · rw [hCall, hProgress]
    · rw [hCall, ← Option.some.inj h]
      rfl
  case h_4 handle hCall hProgress =>
    refine .inr ⟨none, ?_, ?_⟩
    · rw [hCall, hProgress]
    · rw [hCall, ← Option.some.inj h]
      rfl
  case h_5 => cases h

theorem step?_progress_of_ne (h : step? calls s i = some s') {j : ι} (hj : j ≠ i) :
    s'.progress j = s.progress j := by
  rcases step?_cases h with ⟨_, _, _, _, _, rfl⟩ | ⟨_, _, rfl⟩
  · exact advance_progress_of_ne _ _ _ _ hj
  · exact advance_progress_of_ne _ _ _ _ hj

theorem step?_oneCell (hCell : OneCell calls cell s.contexts) (h : step? calls s i = some s') :
    OneCell calls cell s'.contexts := by
  rcases step?_cases h with ⟨_, _, _, _, _, rfl⟩ | ⟨content, _, rfl⟩
  · exact hCell
  · exact hCell.setCell i content

theorem step?_installed? (hCell : OneCell calls cell s.contexts)
    (h : step? calls s i = some s') (j : ι) :
    s'.contexts.installed? (calls j).handle =
      (stored? calls s i).getD (s.contexts.installed? (calls j).handle) := by
  rcases step?_cases h with ⟨_, _, _, _, hNone, rfl⟩ | ⟨content, hSome, rfl⟩
  · rw [hNone]
    rfl
  · rw [hSome]
    exact hCell.installed?_setCell i j content

/-! ## Schedules -/

theorem run?_append (s : Concurrent γ ι) (before after : List ι) :
    run? calls s (before ++ after) = (run? calls s before).bind (run? calls · after) := by
  induction before generalizing s with
  | nil => rfl
  | cons i before ih =>
    rw [List.cons_append, run?, run?, Option.bind_assoc]
    exact congrArg _ (funext ih)

theorem run?_cons_eq_some {schedule : List ι} :
    run? calls s (i :: schedule) = some s' ↔
      ∃ next, step? calls s i = some next ∧ run? calls next schedule = some s' :=
  Option.bind_eq_some_iff

theorem run?_progress_of_not_mem {schedule : List ι} (h : run? calls s schedule = some s')
    (hi : i ∉ schedule) : s'.progress i = s.progress i := by
  induction schedule generalizing s with
  | nil =>
    cases h
    rfl
  | cons j schedule ih =>
    obtain ⟨next, hStep, hRest⟩ := run?_cons_eq_some.mp h
    rw [List.mem_cons, not_or] at hi
    rw [ih hRest hi.2]
    exact step?_progress_of_ne hStep hi.1

theorem run?_installed? (hCell : OneCell calls cell s.contexts) {schedule : List ι}
    (h : run? calls s schedule = some s') (j : ι) :
    s'.contexts.installed? (calls j).handle =
      (stored calls s schedule).getLastD (s.contexts.installed? (calls j).handle) := by
  induction schedule generalizing s with
  | nil =>
    cases h
    rfl
  | cons i schedule ih =>
    obtain ⟨next, hStep, hRest⟩ := run?_cons_eq_some.mp h
    rw [ih (step?_oneCell hCell hStep) hRest, step?_installed? hCell hStep, stored, hStep]
    cases stored? calls s i with
    | none => rfl
    | some content => simp [List.getLastD_eq_getLast?, List.getLast?_cons]

theorem run?_turns (s : Concurrent γ ι) (hWaiting : s.progress i = .waiting) :
    run? calls s ((calls i).turns i) =
      some (s.advance i ((calls i).perform s.contexts) .done) := by
  cases hCall : calls i with
  | install handle client =>
    have hRead : step? calls s i =
        some (s.advance i s.contexts (.holding ((s.contexts.baseUrl? handle).getD ""))) := by
      rw [step?, hCall, hWaiting]
    rw [Call.turns, run?, hRead, Option.bind_some, run?, step?, hCall, advance_progress_self,
      Option.bind_some, run?]
    simp only [advance, Function.update_idem, Contexts.install, Call.perform]
  | installWithBaseUrl | reset =>
    rw [Call.turns, run?, step?, hCall, hWaiting]
    rfl

/-- Calls that have their turns one after the other do what they do alone. -/
theorem run?_inTurn (callers : List ι) (hOnce : callers.Nodup) (s : Concurrent γ ι)
    (hWaiting : ∀ i ∈ callers, s.progress i = .waiting) :
    (run? calls s (callers.flatMap fun i => (calls i).turns i)).map (·.contexts) =
      some (callers.foldl (fun c i => (calls i).perform c) s.contexts) := by
  induction callers generalizing s with
  | nil => rfl
  | cons i callers ih =>
    obtain ⟨hFirst, hRest⟩ := List.nodup_cons.mp hOnce
    rw [List.flatMap_cons, run?_append, run?_turns s (hWaiting i List.mem_cons_self),
      Option.bind_some]
    refine ih hRest _ fun j hj => ?_
    have hOther : j ≠ i := fun hSame => hFirst (hSame ▸ hj)
    rw [advance_progress_of_ne _ _ _ _ hOther]
    exact hWaiting j (List.mem_cons_of_mem _ hj)

/-! ## From the read of an install to its write -/

/-- An install with the states of its two lock sections and the turns in between. -/
structure Window (calls : ι → Call γ) (c : Contexts γ) (before : List ι) (atRead : Concurrent γ ι)
    (i : ι) (handle : Nat) (client : γ) (between : List ι) (atWrite : Concurrent γ ι) : Prop where
  reads : run? calls (start c) before = some atRead
  waiting : atRead.progress i = .waiting
  call : calls i = .install handle client
  runs : run? calls atRead (i :: between) = some atWrite
  next : i ∉ between

variable {before between : List ι} {atRead atWrite : Concurrent γ ι} {handle : Nat} {client : γ}

theorem Window.stored?_eq (h : Window calls c before atRead i handle client between atWrite) :
    stored? calls atWrite i =
      some (some ⟨client, (atRead.contexts.baseUrl? handle).getD ""⟩) := by
  obtain ⟨afterRead, hStep, hRest⟩ := run?_cons_eq_some.mp h.runs
  rw [stored?_install h.call]
  refine ⟨_, ?_, rfl⟩
  rw [run?_progress_of_not_mem hRest h.next]
  rw [step?, h.call, h.waiting] at hStep
  rw [← Option.some.inj hStep]
  exact advance_progress_self ..

theorem Window.stored_eq_nil (h : Window calls c before atRead i handle client [] atWrite) :
    stored calls atRead [i] = [] := by
  simp [stored, stored?, step?, h.call, h.waiting]

theorem Window.run?_append (h : Window calls c before atRead i handle client between atWrite) :
    run? calls (start c) (before ++ i :: between) = some atWrite := by
  rw [Concurrent.run?_append, h.reads, Option.bind_some]
  exact h.runs

/-- An install that has something to store is at the end of a window: going back from there, its
progress does not change before its own turn, which was a read. -/
theorem exists_window (h : run? calls (start c) before = some s)
    (hCall : calls i = .install handle client) {baseUrl : String}
    (hHolding : s.progress i = .holding baseUrl) :
    ∃ first between atRead, before = first ++ i :: between ∧
      Window calls c first atRead i handle client between s := by
  induction before using List.reverseRecOn generalizing s with
  | nil =>
    cases h
    cases hHolding
  | append_singleton before j ih =>
    rw [run?_append, Option.bind_eq_some_iff] at h
    obtain ⟨last, hBefore, hLast⟩ := h
    obtain ⟨_, hStep, hNext⟩ := run?_cons_eq_some.mp hLast
    cases hNext
    -- The last turn is that of the read itself, or one of another call.
    by_cases hSame : i = j
    · subst hSame
      rcases step?_cases hStep with ⟨_, _, _, hWaiting, _⟩ | ⟨_, _, rfl⟩
      · exact ⟨before, [], last, rfl, hBefore, hWaiting, hCall, hLast, List.not_mem_nil⟩
      · rw [advance_progress_self] at hHolding
        cases hHolding
    · rw [step?_progress_of_ne hStep hSame] at hHolding
      obtain ⟨first, between, atRead, rfl, hWindow⟩ := ih hBefore hHolding
      refine ⟨first, between ++ [j], atRead, by simp, hWindow.reads, hWindow.waiting, hCall, ?_, ?_⟩
      · rw [← List.cons_append, run?_append, hWindow.runs]
        exact hLast
      · rw [List.mem_append, List.mem_singleton, not_or]
        exact ⟨hWindow.next, hSame⟩

/-- Each install of a schedule stores the base URL of the moment of its write. -/
def KeepsCurrent (calls : ι → Call γ) (c : Contexts γ) (schedule : List ι) : Prop :=
  ∀ before i after handle client s, schedule = before ++ i :: after →
    calls i = .install handle client → run? calls (start c) before = some s →
    ∀ content, stored? calls s i = some content →
      content = some ⟨client, (s.contexts.baseUrl? handle).getD ""⟩

/-- If other calls store something in a window, then the last of them leaves the base URL as it was
at the read. -/
def Undisturbed (calls : ι → Call γ) (c : Contexts γ) (schedule : List ι) : Prop :=
  ∀ before i between after atRead handle client atWrite,
    schedule = before ++ i :: (between ++ i :: after) →
    Window calls c before atRead i handle client between atWrite →
    ∀ content ∈ (stored calls atRead (i :: between)).getLast?,
      (content.map (·.baseUrl)).getD "" = (atRead.contexts.baseUrl? handle).getD ""

theorem OneCell.run (hCell : OneCell calls cell s.contexts) {schedule : List ι}
    (h : run? calls s schedule = some s') : OneCell calls cell s'.contexts := by
  induction schedule generalizing s with
  | nil =>
    cases h
    exact hCell
  | cons i schedule ih =>
    obtain ⟨next, hStep, hRest⟩ := run?_cons_eq_some.mp h
    exact ih (step?_oneCell hCell hStep) hRest

/-- An install stores what it read, so it keeps the current base URL exactly where its read is as
good as one at the moment of the write. -/
theorem Window.keeps_iff (hCell : OneCell calls cell c)
    (h : Window calls c before atRead i handle client between atWrite) :
    (atRead.contexts.baseUrl? handle).getD "" = (atWrite.contexts.baseUrl? handle).getD "" ↔
      ∀ content ∈ (stored calls atRead (i :: between)).getLast?,
        (content.map (·.baseUrl)).getD "" = (atRead.contexts.baseUrl? handle).getD "" := by
  have hAtWrite := run?_installed? (OneCell.run (s := start c) hCell h.reads) h.runs i
  rw [h.call] at hAtWrite
  rw [Contexts.baseUrl?, Contexts.baseUrl?, show atWrite.contexts.installed? handle = _ from hAtWrite,
    List.getLastD_eq_getLast?]
  cases (stored calls atRead (i :: between)).getLast? with
  | none => simp [Call.handle]
  | some content => simp [eq_comm]

theorem keepsCurrent_iff (hCell : OneCell calls cell c) (schedule : List ι) :
    KeepsCurrent calls c schedule ↔ Undisturbed calls c schedule := by
  constructor
  · intro hKeeps before i between after atRead handle client atWrite hSchedule hWindow
    rw [← hWindow.keeps_iff hCell]
    have hTurns : schedule = (before ++ i :: between) ++ i :: after := by simp [hSchedule]
    have hCurrent := hKeeps _ i after handle client atWrite hTurns hWindow.call hWindow.run?_append _
      hWindow.stored?_eq
    exact congrArg Installed.baseUrl (Option.some.inj hCurrent)
  · intro hUndisturbed before i after handle client s hSchedule hCall hRun content hStored
    obtain ⟨baseUrl, hHolding, -⟩ := (stored?_install hCall).mp hStored
    obtain ⟨first, between, atRead, rfl, hWindow⟩ := exists_window hRun hCall hHolding
    have hTurns : schedule = first ++ i :: (between ++ i :: after) := by simp [hSchedule]
    have hSame := hUndisturbed first i between after atRead handle client s hTurns hWindow
    rw [← hWindow.keeps_iff hCell] at hSame
    rw [hWindow.stored?_eq] at hStored
    rw [← hSame]
    exact (Option.some.inj hStored).symm

/-- Two copies of a context, of which one gets another client while the other gets a base URL as
well. -/
def racing : Bool → Call Nat
  | false => .install 0 2
  | true => .installWithBaseUrl 1 3 "https://two"

def copied : Contexts Nat := (fresh.installWithBaseUrl 0 1 "https://one").share 0

theorem racing_oneCell : OneCell racing 0 copied := by
  constructor
  · decide
  · decide

theorem inTurn_keepsCurrent :
    OneCell racing 0 copied ∧ KeepsCurrent racing copied [true, false, false] ∧
      (run? racing (start copied) [true, false, false]).map (·.contexts) =
        some ((copied.installWithBaseUrl 1 3 "https://two").install 0 2) := by
  refine ⟨racing_oneCell, (keepsCurrent_iff racing_oneCell _).mpr ?_,
    run?_inTurn [true, false] (by decide) _ fun _ _ => rfl⟩
  intro before i between after atRead handle client atWrite hSchedule hWindow
  have hBetween : between = [] := by
    have hLength := congrArg List.length hSchedule
    simp only [List.length_append, List.length_cons, List.length_nil] at hLength
    cases before with
    | nil =>
      obtain ⟨rfl, hRest⟩ := List.cons_eq_cons.mp hSchedule
      have hAgain : true ∈ [false, false] := by simp [hRest]
      exact absurd hAgain (by decide)
    | cons first before =>
      simp only [List.length_cons] at hLength
      exact List.length_eq_zero_iff.mp (by omega)
  subst hBetween
  rw [hWindow.stored_eq_nil]
  exact nofun

theorem not_keepsCurrent_racing : ¬KeepsCurrent racing copied [false, true, false] ∧
    (run? racing (start copied) [false, true, false]).map (·.contexts.installed? 1) =
      some (some ⟨2, "https://one"⟩) := by
  constructor
  · intro hKeeps
    have hStale := hKeeps [false, true] false [] 0 2 _ rfl rfl rfl _ rfl
    revert hStale
    decide
  · rfl

end Concurrent
end TraitClient.Contexts
