import TraitClient.Extraction.TraitIndex
import TraitClient.Proofs.ParsedItems

/-!
# Kinds of items

Of all items only those that open with the words of a trait or of a module are read as one.  What
stands in the body of a function, in a block or in an implementation is read as well, but is no part
of what is read.
-/
namespace TraitClient.Source.Parser

variable {α : Type} {g : Grammar} {s t u : Tokens} {item : Item}

/-! ## How items open -/

/-- The words of a trait or of an alias of bounds, behind its visibility. -/
def opensTrait (s : Tokens) : Bool :=
  peekWord "trait" s || (peekWord "auto" s && peek2 (peekWord "trait") s) ||
    (peekWord "unsafe" s &&
      (peek2 (peekWord "trait") s || (peek2 (peekWord "auto") s && peek3 (peekWord "trait") s)))

def opensModule (s : Tokens) : Bool :=
  peekWord "mod" s || (peekWord "unsafe" s && peek2 (peekWord "mod") s)

/-- The tokens of an alias of bounds, `trait Name = ...`. -/
def OpensAlias (g : Grammar) (s : Tokens) : Prop :=
  ∃ name rest hasGenerics bounds, s = .ident "trait" :: .ident name :: rest ∧
    Reads (generics g) rest hasGenerics bounds ∧ peekOp "=" bounds = true

def moduleWords (isUnsafe : Bool) (rest : Tokens) : Tokens :=
  if isUnsafe then .ident "unsafe" :: .ident "mod" :: rest else .ident "mod" :: rest

theorem opensModule_moduleWords (isUnsafe : Bool) (rest : Tokens) :
    opensModule (moduleWords isUnsafe rest) = true := by
  cases isUnsafe <;> rfl

/-- An item opens as its kind says, and has a kind of its own if it opens as a module or a trait.
The content of a module has been read in its braces by the parser of items. -/
def Opens (g : Grammar) (s : Tokens) : Item → Prop
  | .use _ _ => peekWord "use" s = true
  | .module _ none => opensModule s = true
  | .module name (some content) => ∃ isUnsafe body rest t,
    s = moduleWords isUnsafe (.ident name :: .group .brace body :: rest) ∧
      Reads (innerAttributes g) body () t ∧ Reads (toEnd g.item) t content []
  | .trait _ => opensTrait s = true
  | .other => opensModule s = false ∧ (opensTrait s = true → OpensAlias g s)

/-! ## What was read by parts -/

theorem Reads.of_pure {a b : α} (h : Reads (pure a) s b t) : b = a ∧ t = s := by
  obtain ⟨_, h⟩ := h
  cases h
  exact ⟨rfl, rfl⟩

theorem Reads.ite {c : Prop} [Decidable c] {p q : Parser α} {a : α} {P : Prop}
    (h : Reads (if c then p else q) s a t) (hp : c → Reads p s a t → P)
    (hq : ¬c → Reads q s a t → P) : P := by
  split at h
  · exact hp ‹_› h
  · exact hq ‹_› h

theorem Reads.of_word {text : String} (h : Reads (word text) s () t) : s = .ident text :: t := by
  obtain ⟨_, h⟩ := h
  unfold word at h
  split at h
  · split at h
    · rename_i hSame
      cases h
      rw [beq_iff_eq.mp hSame]
    · cases h
  · cases h

theorem Reads.of_group {d : Delimiter} {p : Parser α} {a : α} (h : Reads (group d p) s a t) :
    ∃ body, s = .group d body :: t ∧ Reads p body a [] := by
  obtain ⟨_, h⟩ := h
  unfold group at h
  split at h
  · split at h
    · rename_i hSame
      split at h
      · rename_i hBody
        cases h
        exact ⟨_, by rw [hSame], _, hBody⟩
      · cases h
    · cases h
  · cases h

theorem Reads.of_ifSees {peek : Tokens → Bool} {p : Parser α} {a : α}
    (h : Reads (ifSees peek p) s (some a) t) : Reads p s a t := by
  replace h := Reads.of_looks_bind (p := sees peek) rfl h
  unfold when at h
  split at h
  · obtain ⟨_, _, hRead, hPure⟩ := h.of_bind (f := pure ∘ some)
    obtain ⟨hSame, rfl⟩ := hPure.of_pure
    cases hSame
    exact hRead
  · obtain ⟨hNone, -⟩ := h.of_pure
    cases hNone

/-- Each of the values that a loop yields was read by what is repeated, where the one before it
ended. -/
theorem Reads.of_repeatAtMost {step : Parser (Option α)} {fuel : Nat} {as : List α}
    (h : Reads (repeatAtMost step fuel) s as t) {a : α} (ha : a ∈ as) {Reached : Tokens → Prop}
    (hStart : Reached s) (hNext : ∀ s a t, Reached s → Reads step s (some a) t → Reached t) :
    ∃ s t, Reached s ∧ Reads step s (some a) t := by
  induction fuel generalizing s as t with
  | zero =>
    obtain ⟨_, h⟩ := h
    cases h
  | succ fuel ih =>
    obtain ⟨found, u, hStep, h⟩ := h.of_bind
    cases found with
    | none =>
      obtain ⟨rfl, -⟩ := h.of_pure
      cases ha
    | some first =>
      obtain ⟨more, _, hMore, hPure⟩ := h.of_bind
      obtain ⟨rfl, -⟩ := hPure.of_pure
      rcases List.mem_cons.mp ha with rfl | ha
      · exact ⟨s, u, hStart, hStep⟩
      · exact ih hMore ha (hNext s first u hStart hStep)

theorem Reads.of_toEnd {p : Parser α} {as : List α} (h : Reads (toEnd p) s as t) {a : α}
    (ha : a ∈ as) {Reached : Tokens → Prop} (hStart : Reached s)
    (hNext : ∀ s a t, Reached s → Reads p s a t → Reached t) :
    ∃ s t, Reached s ∧ Reads p s a t := by
  obtain ⟨w, h⟩ := h
  obtain ⟨s', t', hReached, hStep⟩ := Reads.of_repeatAtMost ⟨w, h⟩ ha hStart
    fun s a t hReached hStep => hNext s a t hReached hStep.of_ifSees
  exact ⟨s', t', hReached, hStep.of_ifSees⟩

theorem Reads.of_anyIdent {name : String} (h : Reads anyIdent s name t) : s = .ident name :: t := by
  obtain ⟨_, h⟩ := h
  unfold anyIdent at h
  split at h
  · cases h
    rfl
  · cases h

theorem Reads.of_ident {name : String} (h : Reads ident s name t) : s = .ident name :: t := by
  obtain ⟨_, h⟩ := h
  unfold ident at h
  split at h
  · split at h
    · cases h
      rfl
    · cases h
  · cases h

/-! ## Items by their kinds -/

/-- What opens neither as a module nor as a trait. -/
def OpensOther (s : Tokens) : Prop := opensModule s = false ∧ opensTrait s = false

theorem opensOther_of_word {text : String} (h : peekWord text s = true)
    (hText : text ∉ ["trait", "auto", "unsafe", "mod"]) : OpensOther s := by
  obtain ⟨rest, rfl⟩ := peekWord_eq_true h
  simp only [List.mem_cons, List.not_mem_nil, or_false, not_or] at hText
  simp [OpensOther, opensModule, opensTrait, peekWord, hText]

theorem opensOther_of_second {text : String} (h : peekWord "unsafe" s = true)
    (hSecond : peek2 (peekWord text) s = true) (hText : text ∉ ["trait", "auto", "mod"]) :
    OpensOther s := by
  obtain ⟨rest, rfl⟩ := peekWord_eq_true h
  obtain ⟨rest, rfl⟩ : ∃ more, rest = .ident text :: more := peekWord_eq_true hSecond
  simp only [List.mem_cons, List.not_mem_nil, or_false, not_or] at hText
  simp [OpensOther, opensModule, opensTrait, peekWord, peek2, skipOne, hText]

theorem exists_word_of_opens (h : opensModule s = true ∨ opensTrait s = true) :
    ∃ text ∈ ["trait", "auto", "mod"], ∃ rest,
      s = .ident text :: rest ∨ s = .ident "unsafe" :: .ident text :: rest := by
  have hFirst {text : String} (hText : text ∈ ["trait", "auto", "mod"])
      (hPeek : peekWord text s = true) : ∃ text ∈ ["trait", "auto", "mod"], ∃ rest,
        s = .ident text :: rest ∨ s = .ident "unsafe" :: .ident text :: rest := by
    obtain ⟨rest, rfl⟩ := peekWord_eq_true hPeek
    exact ⟨text, hText, rest, .inl rfl⟩
  have hSecond {text : String} (hText : text ∈ ["trait", "auto", "mod"])
      (hMark : peekWord "unsafe" s = true) (hPeek : peek2 (peekWord text) s = true) :
      ∃ text ∈ ["trait", "auto", "mod"], ∃ rest,
        s = .ident text :: rest ∨ s = .ident "unsafe" :: .ident text :: rest := by
    obtain ⟨rest, rfl⟩ := peekWord_eq_true hMark
    obtain ⟨more, rfl⟩ : ∃ more, rest = .ident text :: more := peekWord_eq_true hPeek
    exact ⟨text, hText, more, .inr rfl⟩
  simp only [opensModule, opensTrait, Bool.or_eq_true, Bool.and_eq_true] at h
  obtain (hMod | ⟨hMark, hMod⟩) | ((hTrait | ⟨hAuto, -⟩) | ⟨hMark, hTrait | ⟨hAuto, -⟩⟩) := h
  · exact hFirst (by decide) hMod
  · exact hSecond (by decide) hMark hMod
  · exact hFirst (by decide) hTrait
  · exact hFirst (by decide) hAuto
  · exact hSecond (by decide) hMark hTrait
  · exact hSecond (by decide) hMark hAuto

theorem opensOther_of_signature (h : peekSignature false s = true) : OpensOther s := by
  by_contra hOther
  have hOpens : opensModule s = true ∨ opensTrait s = true := by
    simpa [OpensOther, -not_and, Classical.not_and_iff_not_or_not] using hOther
  obtain ⟨text, hText, rest, rfl | rfl⟩ := exists_word_of_opens hOpens
  all_goals
    simp only [List.mem_cons, List.not_mem_nil, or_false] at hText
    obtain rfl | rfl | rfl := hText
    all_goals simp [peekSignature, peekWord] at h

theorem other_opens (hs : OpensOther u) {p : Parser Unit} (h : Reads (do
      p
      pure Item.other) s item t) : Opens g u item := by
  obtain ⟨_, _, _, h⟩ := h.of_bind
  obtain ⟨rfl, -⟩ := h.of_pure
  refine ⟨hs.1, fun hTrait => ?_⟩
  rw [hs.2] at hTrait
  cases hTrait

theorem word_opens {text : String} (hText : text ∉ ["trait", "auto", "unsafe", "mod"])
    {p : Parser Unit} (hWord : peekWord text s = true) (h : Reads (do
      p
      pure Item.other) s item t) : Opens g s item :=
  other_opens (opensOther_of_word hWord hText) h

theorem useItem_opens (hUse : peekWord "use" s = true) (h : Reads useItem s item t) :
    Opens g s item := by
  obtain ⟨_, _, _, h⟩ := h.of_bind
  obtain ⟨_, _, _, h⟩ := h.of_bind
  replace h := Reads.of_looks_bind (p := rest) rfl h
  obtain ⟨tree, _, _, h⟩ := h.of_bind
  cases tree with
  | none => exact other_opens (opensOther_of_word hUse (by decide)) h
  | some tree =>
    obtain ⟨_, _, _, h⟩ := h.of_bind
    obtain ⟨rfl, -⟩ := h.of_pure
    exact hUse

theorem moduleItem_opens (h : Reads (moduleItem g) s item t) : Opens g s item := by
  obtain ⟨_, u, hMark, h⟩ := h.of_bind
  obtain ⟨marked, _, hMark, hPure⟩ := hMark.of_bind
  obtain ⟨-, rfl⟩ := hPure.of_pure
  obtain ⟨_, v, hWord, hRest⟩ := h.of_bind
  obtain ⟨isUnsafe, rfl⟩ : ∃ isUnsafe, s = moduleWords isUnsafe v := by
    obtain ⟨-, rfl⟩ | ⟨-, rfl⟩ := hMark.wordIf_cases
    · exact ⟨true, by rw [hWord.of_word]; rfl⟩
    · exact ⟨false, by rw [hWord.of_word]; rfl⟩
  have hEnd {name : String} {w : Tokens} (hName : v = .ident name :: w) (h : Reads (do
      if ← sees (peekOp ";") then
        op ";"
        pure (Item.module name none)
      else
        let items ← braces do
          innerAttributes g
          toEnd g.item
        pure (Item.module name (some items))) w item t) :
      Opens g (moduleWords isUnsafe v) item := by
    replace h := Reads.of_looks_bind (p := sees (peekOp ";")) rfl h
    refine h.ite (fun _ h => ?_) fun _ h => ?_
    · obtain ⟨_, _, _, h⟩ := h.of_bind
      obtain ⟨rfl, -⟩ := h.of_pure
      exact opensModule_moduleWords isUnsafe v
    · obtain ⟨items, _, hBraces, h⟩ := h.of_bind
      obtain ⟨rfl, -⟩ := h.of_pure
      obtain ⟨body, hGroup, hBody⟩ := hBraces.of_group
      obtain ⟨_, x, hInner, hItems⟩ := hBody.of_bind
      exact ⟨isUnsafe, body, _, x, by rw [hName, hGroup], hInner, hItems⟩
  replace hRest := Reads.of_looks_bind (p := sees (peekWord "try")) rfl hRest
  refine hRest.ite (fun _ h => ?_) fun _ h => ?_
  · obtain ⟨_, _, hName, h⟩ := h.of_bind
    exact hEnd hName.of_anyIdent h
  · obtain ⟨_, _, hName, h⟩ := h.of_bind
    exact hEnd hName.of_ident h

theorem traitBody_opens {attributes : List Attribute} {vis : Visibility} {name : String}
    {hasGenerics : Bool} (hTrait : opensTrait s = true)
    (h : Reads (traitBody g attributes vis name hasGenerics) u item t) : Opens g s item := by
  obtain ⟨_, _, _, h⟩ := h.of_bind
  refine h.ite (fun _ h => ?_) fun _ h => ?_
  all_goals
    obtain ⟨_, _, _, h⟩ := h.of_bind
    obtain ⟨_, _, _, h⟩ := h.of_bind
    obtain ⟨_, _, _, h⟩ := h.of_bind
    obtain ⟨rfl, -⟩ := h.of_pure
    exact hTrait

theorem traitItem_opens {attributes : List Attribute} {vis : Visibility}
    (hTrait : opensTrait s = true) (h : Reads (traitItem g attributes vis) s item t) :
    Opens g s item := by
  replace h := Reads.of_looks_bind (p := sees fun s => !peekWord "trait" s) rfl h
  obtain ⟨_, s₁, hUnsafe, h⟩ := h.of_bind
  obtain ⟨_, s₂, hAuto, h⟩ := h.of_bind
  obtain ⟨_, s₃, hWord, h⟩ := h.of_bind
  obtain ⟨name, s₄, hName, h⟩ := h.of_bind
  obtain ⟨hasGenerics, s₅, hGenerics, h⟩ := h.of_bind
  replace h := Reads.of_looks_bind (p := sees (peekOp "=")) rfl h
  refine h.ite (fun hAlias hRest => ?_) fun _ => traitBody_opens hTrait
  clear h
  rw [Bool.and_eq_true, Bool.not_not] at hAlias
  obtain ⟨hUnmarked, hEquals⟩ := hAlias
  obtain ⟨rest, rfl⟩ := peekWord_eq_true hUnmarked
  obtain ⟨_, _, hUnsafe, hPure⟩ := hUnsafe.of_bind
  obtain ⟨-, rfl⟩ := hPure.of_pure
  obtain ⟨-, hFirst⟩ | ⟨-, rfl⟩ := hUnsafe.wordIf_cases
  · exact absurd hFirst (by simp)
  obtain ⟨_, _, hAuto, hPure⟩ := hAuto.of_bind
  obtain ⟨-, rfl⟩ := hPure.of_pure
  obtain ⟨-, hFirst⟩ | ⟨-, rfl⟩ := hAuto.wordIf_cases
  · exact absurd hFirst (by simp)
  cases hWord.of_word
  obtain rfl := hName.of_ident
  obtain ⟨_, _, _, hRest⟩ := hRest.of_bind
  obtain ⟨_, _, _, hRest⟩ := hRest.of_bind
  obtain ⟨_, _, _, hRest⟩ := hRest.of_bind
  obtain ⟨_, _, _, hRest⟩ := hRest.of_bind
  obtain ⟨rfl, -⟩ := hRest.of_pure
  exact ⟨rfl, fun _ => ⟨name, s₄, hasGenerics, s₅, rfl, hGenerics, hEquals⟩⟩

theorem itemRest_opens {attributes : List Attribute} (h : Reads (itemRest g attributes) s item t) :
    ∃ vis u, Reads visibility s vis u ∧ Opens g u item := by
  obtain ⟨vis, u, hVis, h⟩ := h.of_bind
  refine ⟨vis, u, hVis, ?_⟩
  replace h := Reads.of_looks_bind (p := rest) rfl h
  have hGuarded (hu : OpensOther u) {b : Bool} {p : Parser Unit} (h : Reads (do
      guard b
      p
      pure Item.other) u item t) : Opens g u item := by
    obtain ⟨_, _, _, h⟩ := h.of_bind
    exact other_opens hu h
  refine h.ite (fun hFunction h => ?function) fun _ h =>
    h.ite (fun hExtern h => ?foreign) fun _ h =>
    h.ite useItem_opens fun _ h => h.ite (word_opens (by decide)) fun _ h =>
    h.ite (word_opens (by decide)) fun _ h => h.ite (fun hMark h => ?marked) fun hUnmarked h =>
    h.ite (fun _ => moduleItem_opens) fun hModule h => h.ite (word_opens (by decide)) fun _ h =>
    h.ite (word_opens (by decide)) fun _ h => h.ite (word_opens (by decide)) fun _ h =>
    h.ite (fun hUnion h => ?union) fun _ h =>
    h.ite (fun hTrait => traitItem_opens ?plain) fun hTrait h =>
    h.ite (fun hImpl h => ?impl) fun _ h =>
    h.ite (word_opens (by decide)) fun _ => hGuarded ?call
  case function =>
    refine other_opens ?_ h
    rcases Bool.or_eq_true_iff.mp hFunction with hWord | hSignature
    · exact opensOther_of_word hWord (by decide)
    · exact opensOther_of_signature hSignature
  case foreign =>
    have hOther : OpensOther u := opensOther_of_word hExtern (by decide)
    exact h.ite (fun _ => other_opens hOther) fun _ => hGuarded hOther
  case marked =>
    refine h.ite (fun hTrait => traitItem_opens ?_) fun _ h => h.ite (fun hImpl => other_opens ?_)
      fun _ h => h.ite (fun hExtern => hGuarded ?_) fun _ => moduleItem_opens
    · rw [opensTrait, hMark, hTrait, Bool.and_self, Bool.or_true]
    · exact opensOther_of_second hMark hImpl (by decide)
    · exact opensOther_of_second hMark hExtern (by decide)
  case union => exact word_opens (by decide) (Bool.and_eq_true_iff.mp hUnion).1 h
  case plain => rw [opensTrait, hTrait, Bool.true_or]
  case impl =>
    rcases Bool.or_eq_true_iff.mp hImpl with hWord | hDefault
    · exact word_opens (by decide) hWord h
    · exact word_opens (by decide) (Bool.and_eq_true_iff.mp hDefault).1 h
  case call =>
    rw [Bool.not_eq_true] at hUnmarked hModule hTrait
    rw [OpensOther, opensModule, opensTrait, hUnmarked, hModule, hTrait]
    exact ⟨rfl, rfl⟩

/-! ## Items of files -/

/-- Where items are read in the tokens of a file: behind its inner attributes, where the item before
ends, and in the braces of a module.  The grammar is one level less deep with each module. -/
inductive ReachesItem (tokens : Tokens) : Nat → Tokens → Prop
  | start {depth : Nat} {s : Tokens}
    (h : Reads (innerAttributes (.ofDepth (depth + 1))) tokens () s) : ReachesItem tokens depth s
  | next {depth : Nat} {s t : Tokens} {item : Item} (h : ReachesItem tokens depth s)
    (hItem : Reads (itemStep (.ofDepth depth)) s item t) : ReachesItem tokens depth t
  | inside {depth : Nat} {s t body rest u : Tokens} {attributes : List Attribute} {vis : Visibility}
    {isUnsafe : Bool} {name : String} (h : ReachesItem tokens (depth + 1) s)
    (hAttributes : Reads (outerAttributes (.ofDepth (depth + 1))) s attributes t)
    (hVis : Reads visibility t vis
      (moduleWords isUnsafe (.ident name :: .group .brace body :: rest)))
    (hInner : Reads (innerAttributes (.ofDepth (depth + 1))) body () u) : ReachesItem tokens depth u

/-- An item is read in the tokens of a file, and opens there as its kind says. -/
def IsRead (tokens : Tokens) (item : Item) : Prop :=
  ∃ depth s attributes t vis u v, ReachesItem tokens depth s ∧
    Reads (outerAttributes (.ofDepth depth)) s attributes t ∧ Reads visibility t vis u ∧
      Reads (itemRest (.ofDepth depth) attributes) t item v ∧ Opens (.ofDepth depth) u item

def AreRead (tokens : Tokens) (items : List Item) : Prop :=
  ∃ depth s t, ReachesItem tokens depth s ∧ Reads (toEnd (itemStep (.ofDepth depth))) s items t

theorem areRead_of_parseItems? {tokens : Tokens} {items : List Item}
    (h : parseItems? tokens = some items) : AreRead tokens items := by
  unfold parseItems? run? at h
  split at h
  · rename_i hRead
    cases h
    obtain ⟨_, s, hInner, hItems⟩ := Reads.of_bind ⟨_, hRead⟩
    exact ⟨6 * TokenTree.listSize tokens + 11, s, [], .start hInner, hItems⟩
  · cases h

theorem AreRead.isRead {tokens : Tokens} {items : List Item} (h : AreRead tokens items)
    (hItem : item ∈ items) : IsRead tokens item := by
  obtain ⟨depth, s, t, hReaches, hItems⟩ := h
  obtain ⟨s', t', hReaches', hRead⟩ := hItems.of_toEnd hItem hReaches fun _ _ _ => .next
  obtain ⟨attributes, u, hAttributes, hRest⟩ := hRead.of_bind
  obtain ⟨vis, v, hVis, hOpens⟩ := itemRest_opens hRest
  exact ⟨depth, s', attributes, u, vis, v, t', hReaches', hAttributes, hVis, hRest, hOpens⟩

theorem IsRead.content {tokens : Tokens} {name : String} {content : List Item}
    (h : IsRead tokens (.module name (some content))) (hItem : item ∈ content) :
    AreRead tokens content := by
  obtain ⟨depth, s, attributes, t, vis, u, v, hReaches, hAttributes, hVis, -, hOpens⟩ := h
  obtain ⟨isUnsafe, body, rest, w, rfl, hInner, hContent⟩ := hOpens
  cases depth with
  | zero =>
    have hNone : ∃ s t, True ∧ Reads fail s item t :=
      hContent.of_toEnd hItem trivial fun _ _ _ _ _ => trivial
    obtain ⟨_, _, -, _, hFail⟩ := hNone
    cases hFail
  | succ depth => exact ⟨depth, w, [], .inside hReaches hAttributes hVis hInner, hContent⟩

end TraitClient.Source.Parser
