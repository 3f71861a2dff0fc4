import Mathlib.Data.List.DropRight
import Mathlib.Logic.Relation
import TraitClient.Client.Context

/-!
# Contexts that share a cell

Contexts that are made from each other by copying form a family.  What is done with one of them is
seen by the whole family and by no other context, and of all that was done only the last client and
the last base URL since the last reset are left.
-/
namespace TraitClient.Contexts

variable {γ : Type}

/-- All that was done with contexts.  The index counts the contexts that there are, and an operation
is made on one of these. -/
inductive History (γ : Type) : Nat → Type
  | start : History γ 0
  | new {n : Nat} (past : History γ n) : History γ (n + 1)
  | withClient {n : Nat} (past : History γ n) (client : γ) (baseUrl : String) : History γ (n + 1)
  | clone {n : Nat} (past : History γ n) (handle : Fin n) : History γ (n + 1)
  | install {n : Nat} (past : History γ n) (handle : Fin n) (client : γ) : History γ n
  | installWithBaseUrl {n : Nat} (past : History γ n) (handle : Fin n) (client : γ)
      (baseUrl : String) : History γ n
  | reset {n : Nat} (past : History γ n) (handle : Fin n) : History γ n

/-- What an operation means for the family of its context. -/
inductive Event (γ : Type)
  | installed (client : γ)
  | installedWithBaseUrl (client : γ) (baseUrl : String)
  | reset
  deriving Repr, DecidableEq

namespace Event

def isReset : Event γ → Bool
  | .reset => true
  | _ => false

def client? : Event γ → Option γ
  | .installed client => some client
  | .installedWithBaseUrl client _ => some client
  | .reset => none

def baseUrl? : Event γ → Option String
  | .installedWithBaseUrl _ baseUrl => some baseUrl
  | _ => none

end Event

namespace History

variable {n : Nat}

/-- The contexts after all operations. -/
def contexts : {n : Nat} → History γ n → Contexts γ
  | _, .start => ⟨[], []⟩
  | _, .new past => past.contexts.new
  | _, .withClient past client baseUrl => past.contexts.withClient client baseUrl
  | _, .clone past handle => past.contexts.share handle
  | _, .install past handle client => past.contexts.install handle client
  | _, .installWithBaseUrl past handle client baseUrl =>
    past.contexts.installWithBaseUrl handle client baseUrl
  | _, .reset past handle => past.contexts.reset handle

def events : {n : Nat} → History γ n → List (Nat × Event γ)
  | _, .start => []
  | _, .new past => past.events
  | _, @withClient _ n past client baseUrl =>
    past.events ++ [(n, .installedWithBaseUrl client baseUrl)]
  | _, .clone past _ => past.events
  | _, .install past handle client => past.events ++ [(handle.val, .installed client)]
  | _, .installWithBaseUrl past handle client baseUrl =>
    past.events ++ [(handle.val, .installedWithBaseUrl client baseUrl)]
  | _, .reset past handle => past.events ++ [(handle.val, .reset)]

def copies : {n : Nat} → History γ n → List (Nat × Nat)
  | _, .start => []
  | _, .new past => past.copies
  | _, .withClient past _ _ => past.copies
  | _, @clone _ n past handle => past.copies ++ [(handle.val, n)]
  | _, .install past _ _ => past.copies
  | _, .installWithBaseUrl past _ _ _ => past.copies
  | _, .reset past _ => past.copies

/-- Two contexts of one family. -/
def Connected (t : History γ n) : Nat → Nat → Prop :=
  Relation.EqvGen fun a b => (a, b) ∈ t.copies

end History

def sinceReset (events : List (Event γ)) : List (Event γ) := events.rtakeWhile fun e => !e.isReset

/-- What is left of some events: the client of the last one, and the last base URL. -/
def lastInstalled? (events : List (Event γ)) : Option (Installed γ) :=
  ((sinceReset events).filterMap Event.client?).getLast?.map fun client =>
    ⟨client, ((sinceReset events).filterMap Event.baseUrl?).getLastD ""⟩

theorem sinceReset_reset (events : List (Event γ)) : sinceReset (events ++ [.reset]) = [] :=
  List.rtakeWhile_concat_neg _ _ _ (by simp [Event.isReset])

theorem sinceReset_concat (events : List (Event γ)) {e : Event γ} (h : e.isReset = false) :
    sinceReset (events ++ [e]) = sinceReset events ++ [e] :=
  List.rtakeWhile_concat_pos _ _ _ (by simp [h])

theorem lastInstalled?_reset (events : List (Event γ)) :
    lastInstalled? (events ++ [.reset]) = none := by
  rw [lastInstalled?, sinceReset_reset]
  rfl

theorem lastInstalled?_installedWithBaseUrl (events : List (Event γ)) (client : γ)
    (baseUrl : String) : lastInstalled? (events ++ [.installedWithBaseUrl client baseUrl]) =
      some ⟨client, baseUrl⟩ := by
  rw [lastInstalled?, sinceReset_concat events rfl, List.filterMap_append, List.filterMap_append]
  simp [Event.client?, Event.baseUrl?]

/-- Since a reset each event has a client, so that nothing is installed only if there is none. -/
theorem lastInstalled?_eq_none_iff (events : List (Event γ)) :
    lastInstalled? events = none ↔ sinceReset events = [] := by
  rw [lastInstalled?, Option.map_eq_none_iff, List.getLast?_eq_none_iff, List.filterMap_eq_nil_iff]
  constructor
  · intro hNone
    refine List.eq_nil_iff_forall_not_mem.mpr fun e he => ?_
    have hKept : (!e.isReset) = true :=
      List.mem_rtakeWhile_imp (p := fun e : Event γ => !e.isReset) he
    cases e with
    | reset => cases hKept
    | installed => cases hNone _ he
    | installedWithBaseUrl => cases hNone _ he
  · intro hNil
    rw [hNil]
    exact nofun

theorem lastInstalled?_installed (events : List (Event γ)) (client : γ) :
    lastInstalled? (events ++ [.installed client]) =
      some ⟨client, ((lastInstalled? events).map (·.baseUrl)).getD ""⟩ := by
  have hBaseUrl : ((lastInstalled? events).map (·.baseUrl)).getD "" =
      ((sinceReset events).filterMap Event.baseUrl?).getLastD "" := by
    cases hLast : lastInstalled? events with
    | none =>
      rw [(lastInstalled?_eq_none_iff events).mp hLast]
      rfl
    | some installed =>
      obtain ⟨_, -, rfl⟩ := Option.map_eq_some_iff.mp hLast
      rfl
  rw [hBaseUrl, lastInstalled?, sinceReset_concat events rfl, List.filterMap_append,
    List.filterMap_append]
  simp [Event.client?, Event.baseUrl?]

/-! ## Cells -/

def eventsOf (events : List (Nat × Event γ)) (handles : List Nat) (cell : Nat) : List (Event γ) :=
  (events.filter fun e => handles[e.1]? == some cell).map (·.2)

theorem eventsOf_concat (events : List (Nat × Event γ)) (handles : List Nat) (cell handle : Nat)
    (e : Event γ) : eventsOf (events ++ [(handle, e)]) handles cell =
      if handles[handle]? = some cell then eventsOf events handles cell ++ [e]
      else eventsOf events handles cell := by
  by_cases hCell : handles[handle]? = some cell
  · simp [eventsOf, List.filter_append, hCell]
  · simp [eventsOf, List.filter_append, hCell]

theorem eventsOf_append {events : List (Nat × Event γ)} {handles : List Nat}
    (h : ∀ e ∈ events, e.1 < handles.length) (more : List Nat) (cell : Nat) :
    eventsOf events (handles ++ more) cell = eventsOf events handles cell := by
  unfold eventsOf
  congr 1
  apply List.filter_congr
  intro e he
  rw [List.getElem?_append_left (h e he)]

/-- One cell for each family, with what its events have left in it. -/
structure Represents (n : Nat) (copies : List (Nat × Nat)) (events : List (Nat × Event γ))
    (c : Contexts γ) : Prop where
  size : c.handles.length = n
  known : ∀ cell ∈ c.handles, cell < c.cells.length
  made : ∀ e ∈ events, e.1 < n
  copied : ∀ a b, (a, b) ∈ copies → a < n ∧ c.handles[a]? = c.handles[b]?
  connected : ∀ a b cell, c.handles[a]? = some cell → c.handles[b]? = some cell →
    Relation.EqvGen (fun a b => (a, b) ∈ copies) a b
  content : ∀ cell < c.cells.length,
    c.cells[cell]? = some (lastInstalled? (eventsOf events c.handles cell))

namespace Represents

variable {n : Nat} {copies : List (Nat × Nat)} {events : List (Nat × Event γ)} {c : Contexts γ}

theorem start : Represents 0 [] [] (⟨[], []⟩ : Contexts γ) := by
  constructor <;> simp

theorem exists_cell (h : Represents n copies events c) {handle : Nat} (hHandle : handle < n) :
    ∃ cell, c.handles[handle]? = some cell ∧ cell < c.cells.length := by
  have hLength : handle < c.handles.length := by
    rw [h.size]
    exact hHandle
  exact ⟨c.handles[handle], List.getElem?_eq_getElem hLength, h.known _ (List.getElem_mem hLength)⟩

theorem lt_of_cell (h : Represents n copies events c) {handle cell : Nat}
    (hCell : c.handles[handle]? = some cell) : handle < n := by
  rw [← h.size]
  exact (List.getElem?_eq_some_iff.mp hCell).1

theorem made_lt (h : Represents n copies events c) : ∀ e ∈ events, e.1 < c.handles.length := by
  rw [h.size]
  exact h.made

theorem cell_lt (h : Represents n copies events c) {handle cell : Nat}
    (hCell : c.handles[handle]? = some cell) : cell < c.cells.length :=
  h.known cell (List.mem_of_getElem? hCell)

theorem installed?_eq (h : Represents n copies events c) {handle cell : Nat}
    (hCell : c.handles[handle]? = some cell) :
    c.installed? handle = lastInstalled? (eventsOf events c.handles cell) := by
  rw [Contexts.installed?, hCell, Option.bind_some, h.content cell (h.cell_lt hCell)]
  rfl

theorem connected_iff (h : Represents n copies events c) (a b : Nat) :
    Relation.EqvGen (fun a b => (a, b) ∈ copies) a b ↔
      a = b ∨ a < n ∧ c.handles[a]? = c.handles[b]? := by
  constructor
  · intro hConnected
    induction hConnected with
    | rel a b hCopy => exact .inr (h.copied a b hCopy)
    | refl a => exact .inl rfl
    | symm a b _ ih =>
      rcases ih with rfl | ⟨ha, hSame⟩
      · exact .inl rfl
      · obtain ⟨cell, hCell, _⟩ := h.exists_cell ha
        exact .inr ⟨h.lt_of_cell (hSame ▸ hCell), hSame.symm⟩
    | trans a b d _ _ ih ih' =>
      rcases ih with rfl | ⟨ha, hSame⟩
      · exact ih'
      · rcases ih' with rfl | ⟨_, hSame'⟩
        · exact .inr ⟨ha, hSame⟩
        · exact .inr ⟨ha, hSame.trans hSame'⟩
  · rintro (rfl | ⟨ha, hSame⟩)
    · exact .refl _
    · obtain ⟨cell, hCell, _⟩ := h.exists_cell ha
      exact h.connected a b cell hCell (hSame ▸ hCell)

theorem handle_cases (h : Represents n copies events c) {handle cell added : Nat}
    (hCell : (c.handles ++ [added])[handle]? = some cell) :
    c.handles[handle]? = some cell ∨ handle = n ∧ cell = added := by
  rcases Nat.lt_or_ge handle c.handles.length with hOld | hLast
  · exact .inl (List.getElem?_append_left hOld ▸ hCell)
  · rw [List.getElem?_append_right hLast, List.getElem?_singleton] at hCell
    split at hCell
    · rename_i hZero
      have hSize := h.size
      exact .inr ⟨by omega, (Option.some.inj hCell).symm⟩
    · cases hCell

theorem copied_append (h : Represents n copies events c) (added : Nat) {a b : Nat}
    (hCopy : (a, b) ∈ copies) :
    a < n + 1 ∧ (c.handles ++ [added])[a]? = (c.handles ++ [added])[b]? := by
  obtain ⟨ha, hSame⟩ := h.copied a b hCopy
  obtain ⟨cell, hCell, _⟩ := h.exists_cell ha
  have hb : b < n := h.lt_of_cell (hSame ▸ hCell)
  refine ⟨Nat.lt_succ_of_lt ha, ?_⟩
  rw [← h.size] at ha hb
  rwa [List.getElem?_append_left ha, List.getElem?_append_left hb]

theorem eventsOf_new (h : Represents n copies events c) :
    eventsOf events c.handles c.cells.length = [] := by
  rw [eventsOf, List.map_eq_nil_iff, List.filter_eq_nil_iff]
  intro e _ hEvent
  exact absurd (h.cell_lt (eq_of_beq hEvent)) (Nat.lt_irrefl _)

/-- A new context has a cell that no other one has, with nothing in it. -/
theorem new (h : Represents n copies events c) : Represents (n + 1) copies events c.new := by
  constructor
  · simp [Contexts.new, h.size]
  · intro cell hCell
    rw [Contexts.new, List.length_append, List.length_singleton]
    rcases List.mem_append.mp hCell with hCell | hCell
    · exact Nat.lt_succ_of_lt (h.known cell hCell)
    · rw [List.mem_singleton.mp hCell]
      exact Nat.lt_succ_self _
  · exact fun e he => Nat.lt_succ_of_lt (h.made e he)
  · exact fun a b hCopy => h.copied_append _ hCopy
  · intro a b cell ha hb
    rcases h.handle_cases ha with ha | ⟨rfl, rfl⟩
    · rcases h.handle_cases hb with hb | ⟨rfl, rfl⟩
      · exact h.connected a b cell ha hb
      · exact absurd (h.cell_lt ha) (Nat.lt_irrefl _)
    · rcases h.handle_cases hb with hb | ⟨rfl, -⟩
      · exact absurd (h.cell_lt hb) (Nat.lt_irrefl _)
      · exact .refl _
  · intro cell hCell
    rw [Contexts.new, eventsOf_append h.made_lt]
    rcases Nat.lt_or_ge cell c.cells.length with hOld | hLast
    · rw [List.getElem?_append_left hOld, h.content cell hOld]
    · have hEq : cell = c.cells.length := by
        simp only [Contexts.new, List.length_append, List.length_singleton] at hCell
        omega
      rw [hEq, h.eventsOf_new, List.getElem?_append_right (Nat.le_refl _), Nat.sub_self]
      rfl

/-- A copy has the cell of its context. -/
theorem share (h : Represents n copies events c) {handle : Nat} (hHandle : handle < n) :
    Represents (n + 1) (copies ++ [(handle, n)]) events (c.share handle) := by
  obtain ⟨shared, hShared, hKnown⟩ := h.exists_cell hHandle
  have hShare : c.share handle = ⟨c.cells, c.handles ++ [shared]⟩ := by
    rw [Contexts.share, hShared]
  have hMono {a b : Nat} (hab : Relation.EqvGen (fun a b => (a, b) ∈ copies) a b) :
      Relation.EqvGen (fun a b => (a, b) ∈ copies ++ [(handle, n)]) a b :=
    hab.mono fun _ _ hPair => List.mem_append_left _ hPair
  -- Each context has the cell of one that was there before, and is connected with it.
  have hSource {a cell : Nat} (ha : (c.handles ++ [shared])[a]? = some cell) :
      ∃ a', c.handles[a']? = some cell ∧
        Relation.EqvGen (fun a b => (a, b) ∈ copies ++ [(handle, n)]) a a' := by
    rcases h.handle_cases ha with ha | ⟨rfl, rfl⟩
    · exact ⟨a, ha, .refl a⟩
    · refine ⟨handle, hShared, .symm _ _ (.rel _ _ ?_)⟩
      exact List.mem_append_right _ (List.mem_singleton_self _)
  rw [hShare]
  constructor
  · simp [h.size]
  · intro cell hCell
    rcases List.mem_append.mp hCell with hCell | hCell
    · exact h.known cell hCell
    · rw [List.mem_singleton.mp hCell]
      exact hKnown
  · exact fun e he => Nat.lt_succ_of_lt (h.made e he)
  · intro a b hPair
    rcases List.mem_append.mp hPair with hPair | hPair
    · exact h.copied_append shared hPair
    · obtain ⟨rfl, rfl⟩ := Prod.mk.inj (List.mem_singleton.mp hPair)
      refine ⟨Nat.lt_succ_of_lt hHandle, ?_⟩
      rw [List.getElem?_append_left (h.size ▸ hHandle), hShared, ← h.size, List.getElem?_concat_length]
  · intro a b cell ha hb
    obtain ⟨a', ha', hFirst⟩ := hSource ha
    obtain ⟨b', hb', hSecond⟩ := hSource hb
    exact .trans _ _ _ hFirst (.trans _ _ _ (hMono (h.connected a' b' cell ha' hb'))
      (.symm _ _ hSecond))
  · intro cell hCell
    rw [eventsOf_append h.made_lt]
    exact h.content cell hCell

/-- An event changes the cell of its context and no other one. -/
theorem setCell (h : Represents n copies events c) {handle cell : Nat}
    (hCell : c.handles[handle]? = some cell) (e : Event γ) {content : Option (Installed γ)}
    (hContent : lastInstalled? (eventsOf events c.handles cell ++ [e]) = content) :
    Represents n copies (events ++ [(handle, e)]) (c.setCell handle content) := by
  have hSet : c.setCell handle content = { c with cells := c.cells.set cell content } := by
    rw [Contexts.setCell, hCell]
  rw [hSet]
  constructor
  · exact h.size
  · intro other hOther
    rw [List.length_set]
    exact h.known other hOther
  · intro e' he'
    rcases List.mem_append.mp he' with he' | he'
    · exact h.made e' he'
    · rw [List.mem_singleton.mp he']
      exact h.lt_of_cell hCell
  · exact h.copied
  · exact h.connected
  · intro other hOther
    rw [List.length_set] at hOther
    rw [eventsOf_concat, hCell]
    by_cases hSame : cell = other
    · subst hSame
      rw [if_pos rfl, List.getElem?_set_self hOther, hContent]
    · rw [if_neg fun hEq => hSame (Option.some.inj hEq), List.getElem?_set_ne hSame]
      exact h.content other hOther

theorem installWithBaseUrl (h : Represents n copies events c) {handle : Nat} (hHandle : handle < n)
    (client : γ) (baseUrl : String) :
    Represents n copies (events ++ [(handle, .installedWithBaseUrl client baseUrl)])
      (c.installWithBaseUrl handle client baseUrl) := by
  obtain ⟨cell, hCell, _⟩ := h.exists_cell hHandle
  exact h.setCell hCell _ (lastInstalled?_installedWithBaseUrl _ _ _)

theorem withClient (h : Represents n copies events c) (client : γ) (baseUrl : String) :
    Represents (n + 1) copies (events ++ [(n, .installedWithBaseUrl client baseUrl)])
      (c.withClient client baseUrl) := by
  have hSize : c.size = n := h.size
  rw [Contexts.withClient, hSize]
  exact h.new.installWithBaseUrl (Nat.lt_succ_self n) client baseUrl

theorem install (h : Represents n copies events c) {handle : Nat} (hHandle : handle < n)
    (client : γ) :
    Represents n copies (events ++ [(handle, .installed client)]) (c.install handle client) := by
  obtain ⟨cell, hCell, _⟩ := h.exists_cell hHandle
  refine h.setCell hCell _ ?_
  rw [Contexts.baseUrl?, h.installed?_eq hCell]
  exact lastInstalled?_installed _ _

theorem reset (h : Represents n copies events c) {handle : Nat} (hHandle : handle < n) :
    Represents n copies (events ++ [(handle, .reset)]) (c.reset handle) := by
  obtain ⟨cell, hCell, _⟩ := h.exists_cell hHandle
  exact h.setCell hCell _ (lastInstalled?_reset _)

end Represents

namespace History

variable {n : Nat}

theorem represents (t : History γ n) : Represents n t.copies t.events t.contexts := by
  induction t with
  | start => exact .start
  | new past ih => exact ih.new
  | withClient past client baseUrl ih => exact ih.withClient client baseUrl
  | clone past handle ih => exact ih.share handle.isLt
  | install past handle client ih => exact ih.install handle.isLt client
  | installWithBaseUrl past handle client baseUrl ih =>
    exact ih.installWithBaseUrl handle.isLt client baseUrl
  | reset past handle ih => exact ih.reset handle.isLt

/-! ## Families -/

theorem connected_iff (t : History γ n) (a b : Nat) :
    t.Connected a b ↔ a = b ∨ a < n ∧ t.contexts.handles[a]? = t.contexts.handles[b]? :=
  t.represents.connected_iff a b

instance (t : History γ n) (a b : Nat) : Decidable (t.Connected a b) :=
  decidable_of_iff _ (t.connected_iff a b).symm

def seen (t : History γ n) (handle : Nat) : List (Event γ) :=
  (t.events.filter fun e => t.Connected e.1 handle).map (·.2)

theorem seen_eq (t : History γ n) {handle cell : Nat}
    (hCell : t.contexts.handles[handle]? = some cell) :
    t.seen handle = eventsOf t.events t.contexts.handles cell := by
  unfold seen eventsOf
  congr 1
  apply List.filter_congr
  intro e he
  have hMade := t.represents.made e he
  rw [Bool.eq_iff_iff, decide_eq_true_iff, beq_iff_eq, t.connected_iff, hCell]
  constructor
  · rintro (hSelf | ⟨-, hSame⟩)
    · rw [hSelf, hCell]
    · exact hSame
  · intro hSame
    exact .inr ⟨hMade, hSame⟩

theorem installed?_eq (t : History γ n) {handle : Nat} (hHandle : handle < n) :
    t.contexts.installed? handle = lastInstalled? (t.seen handle) := by
  obtain ⟨cell, hCell, _⟩ := t.represents.exists_cell hHandle
  rw [t.seen_eq hCell]
  exact t.represents.installed?_eq hCell

end History

/-! ## URLs -/

/-- A text and what is left of it without at most one slash at its end. -/
def WithoutLastSlash (s t : String) : Prop := s = t ++ "/" ∨ s = t ∧ ¬∃ r, s = r ++ "/"

/-- A text and what is left of it without at most one slash at its start. -/
def WithoutFirstSlash (s t : String) : Prop := s = "/" ++ t ∨ s = t ∧ ¬∃ r, s = "/" ++ r

/-- The URL of a path below a base URL. -/
inductive Joined (baseUrl path : String) : String → Prop
  | noPath (h : path = "") : Joined baseUrl path baseUrl
  | noBaseUrl (h : baseUrl = "") : Joined baseUrl path path
  | slash {front back : String} (hBaseUrl : baseUrl ≠ "") (hPath : path ≠ "")
      (hFront : WithoutLastSlash baseUrl front) (hBack : WithoutFirstSlash path back) :
      Joined baseUrl path (front ++ "/" ++ back)

theorem exists_append_slash_iff (s : String) :
    (∃ r, s = r ++ "/") ↔ s.toList.getLast? = some '/' := by
  constructor
  · rintro ⟨r, rfl⟩
    simp
  · intro hLast
    obtain ⟨front, hFront⟩ := List.getLast?_eq_some_iff.mp hLast
    refine ⟨String.ofList front, ?_⟩
    rw [← String.toList_inj, String.toList_append, String.toList_ofList, hFront]
    rfl

theorem eq_slash_append_iff (s : String) (rest : List Char) :
    s = "/" ++ String.ofList rest ↔ s.toList = '/' :: rest := by
  have hRest : (String.ofList rest).toList = rest := String.toList_ofList
  rw [← String.toList_inj, String.toList_append, hRest]
  rfl

theorem exists_slash_append_iff (s : String) :
    (∃ r, s = "/" ++ r) ↔ ∃ rest, s.toList = '/' :: rest := by
  constructor
  · rintro ⟨r, hr⟩
    refine ⟨r.toList, ?_⟩
    rw [← eq_slash_append_iff, String.ofList_toList, hr]
  · rintro ⟨rest, hRest⟩
    exact ⟨_, (eq_slash_append_iff s rest).mpr hRest⟩

/-- Each end is read off the same characters that the join looks at. -/
theorem joined_joinUrl (baseUrl path : String) : Joined baseUrl path (joinUrl baseUrl path) := by
  unfold joinUrl
  by_cases hBaseUrl : baseUrl.isEmpty = true
  · rw [if_pos hBaseUrl]
    exact .noBaseUrl (String.isEmpty_iff.mp hBaseUrl)
  by_cases hPath : path.isEmpty = true
  · rw [if_neg hBaseUrl, if_pos hPath]
    exact .noPath (String.isEmpty_iff.mp hPath)
  rw [if_neg hBaseUrl, if_neg hPath]
  rw [String.isEmpty_iff] at hBaseUrl hPath
  have hBack : (∀ rest, path.toList ≠ '/' :: rest) → WithoutFirstSlash path path := by
    intro hNone
    refine .inr ⟨rfl, ?_⟩
    rw [exists_slash_append_iff]
    rintro ⟨rest, hRest⟩
    exact hNone rest hRest
  have hFront : (baseUrl.toList.getLast? == some '/') = false → WithoutLastSlash baseUrl baseUrl := by
    intro hNone
    refine .inr ⟨rfl, ?_⟩
    rw [exists_append_slash_iff]
    exact ne_of_beq_false hNone
  split
  case h_1 _ _ rest hLast hRest =>
    obtain ⟨front, rfl⟩ := (exists_append_slash_iff _).mpr (eq_of_beq hLast)
    exact .slash hBaseUrl hPath (.inl rfl) (.inl ((eq_slash_append_iff _ _).mpr hRest))
  case h_2 _ _ hLast hNone =>
    obtain ⟨front, rfl⟩ := (exists_append_slash_iff _).mpr (eq_of_beq hLast)
    exact .slash hBaseUrl hPath (.inl rfl) (hBack hNone)
  case h_3 _ _ rest hLast hRest =>
    have hSlash := (eq_slash_append_iff _ _).mpr hRest
    rw [show baseUrl ++ path = baseUrl ++ "/" ++ String.ofList rest by
      rw [String.append_assoc, ← hSlash]]
    exact .slash hBaseUrl hPath (hFront hLast) (.inl hSlash)
  case h_4 _ _ hLast hNone =>
    exact .slash hBaseUrl hPath (hFront hLast) (hBack hNone)

/-! ## What is seen of a family -/

/-- A context answers by what was done with its family since the last reset, and by nothing else. -/
structure SharesCell {n : Nat} (t : History γ n) (handle : Nat) : Prop where
  isInstalled : t.contexts.isInstalled handle = true ↔ sinceReset (t.seen handle) ≠ []
  baseUrl : t.contexts.baseUrl? handle =
    if sinceReset (t.seen handle) = [] then none
    else some (((sinceReset (t.seen handle)).filterMap Event.baseUrl?).getLastD "")
  client_fails : t.contexts.client handle = .error .uninitialized ↔ sinceReset (t.seen handle) = []
  client : ∀ client, t.contexts.client handle = .ok client ↔
    ((sinceReset (t.seen handle)).filterMap Event.client?).getLast? = some client
  endpoint_fails : ∀ path, t.contexts.endpoint handle path = .error .uninitialized ↔
    sinceReset (t.seen handle) = []
  endpoint : ∀ client baseUrl, t.contexts.client handle = .ok client →
    t.contexts.baseUrl? handle = some baseUrl →
    ∀ path, ∃ url, t.contexts.endpoint handle path = .ok (client, url) ∧ Joined baseUrl path url

theorem client_eq_ok_iff {c : Contexts γ} {handle : Nat} {client : γ} :
    c.client handle = .ok client ↔ (c.installed? handle).map (·.client) = some client := by
  rw [Contexts.client]
  cases c.installed? handle with
  | none => simp
  | some installed => simp

theorem History.contexts_shareCells {n : Nat} (t : History γ n) (handle : Fin n) :
    SharesCell t handle := by
  have hInstalled := t.installed?_eq handle.isLt
  have hNone : t.contexts.installed? handle = none ↔ sinceReset (t.seen handle) = [] := by
    rw [hInstalled]
    exact lastInstalled?_eq_none_iff _
  constructor
  · rw [Contexts.isInstalled, Option.isSome_iff_ne_none]
    exact not_congr hNone
  · split
    · rename_i hReset
      rw [Contexts.baseUrl?, hNone.mpr hReset]
      rfl
    · rename_i hReset
      obtain ⟨installed, hSome⟩ := Option.ne_none_iff_exists'.mp (mt hNone.mp hReset)
      rw [Contexts.baseUrl?, hSome]
      obtain ⟨client, -, rfl⟩ := Option.map_eq_some_iff.mp (hInstalled.symm.trans hSome)
      rfl
  · rw [← hNone, Contexts.client]
    cases t.contexts.installed? handle with
    | none => simp
    | some installed => simp
  · intro client
    rw [client_eq_ok_iff, hInstalled, lastInstalled?, Option.map_map]
    exact Eq.congr Option.map_id' rfl
  · intro path
    rw [← hNone, Contexts.endpoint]
    cases t.contexts.installed? handle with
    | none => simp
    | some installed => simp
  · intro client baseUrl hClient hBaseUrl path
    refine ⟨joinUrl baseUrl path, ?_, joined_joinUrl baseUrl path⟩
    rw [client_eq_ok_iff] at hClient
    obtain ⟨installed, hSome, rfl⟩ := Option.map_eq_some_iff.mp hClient
    rw [Contexts.baseUrl?, hSome] at hBaseUrl
    rw [Contexts.endpoint, hSome, ← Option.some.inj hBaseUrl]

end TraitClient.Contexts
