import TraitClient.Proofs.TypeReading

/-!
# Reading patterns and lists

The patterns of generated code bind names.  Lists are read to their end, one item after the other.
-/
namespace TraitClient

open Code (IsName IsSegment)

namespace Source

/-! ## Looking at names -/

@[simp] theorem peekIdent_ident (name : String) (s : Tokens) :
    peekIdent (.ident name :: s) = isPlainName name := rfl

@[simp] theorem peek2_ident (peek : Tokens → Bool) (name : String) (s : Tokens) :
    peek2 peek (.ident name :: s) = peek s := rfl

@[simp] theorem peekOp_ident (text name : String) (s : Tokens) :
    peekOp text (.ident name :: s) = text.toList.isEmpty := peekChars_ident text.toList

theorem ne_of_isPlainName {name word : String} (h : isPlainName name = true)
    (hWord : word ∈ keywords) : name ≠ word := by
  rintro rfl
  simp [isPlainName, hWord] at h

theorem peekWord_of_isPlainName {name word : String} (h : isPlainName name = true)
    (hWord : word ∈ keywords) (s : Tokens) : peekWord word (.ident name :: s) = false := by
  rw [peekWord_ident, beq_eq_false_iff_ne]
  exact ne_of_isPlainName h hWord

theorem peekLit_of_isPlainName {name : String} (h : isPlainName name = true) (s : Tokens) :
    peekLit (.ident name :: s) = false := by
  have hTrue : peekWord "true" (.ident name :: s) = false :=
    peekWord_of_isPlainName h (by decide) s
  have hFalse : peekWord "false" (.ident name :: s) = false :=
    peekWord_of_isPlainName h (by decide) s
  rw [peekWord_ident] at hTrue hFalse
  rw [peekLit, hTrue, hFalse, Bool.false_or]

namespace Parser

variable {g : Grammar}

/-! ## Patterns -/

/-- What may stand behind a name without making more of it than a pattern that binds it. -/
structure EndsName (s : Tokens) : Prop where
  colons : peekOp "::" s = false
  bang : peekOp "!" s = false
  brace : peekGroup .brace s = false
  parens : peekGroup .parenthesis s = false
  dots : peekOp ".." s = false
  binding : peekOp "@" s = false

theorem endsName_nil : EndsName [] := by constructor <;> rfl

theorem endsName_ident (name : String) (s : Tokens) : EndsName (.ident name :: s) := by
  constructor <;> rfl

theorem endsName_op (text : String) (h : text ∈ [",", "=", "|", ":"]) (s : Tokens) :
    EndsName (Tokens.operator text ++ s) := by
  simp only [List.mem_cons, List.not_mem_nil, or_false] at h
  rcases h with rfl | rfl | rfl | rfl <;> constructor <;> rfl

theorem reads_boundName {name : String} (h : isPlainName name = true) {s : Tokens}
    (hs : EndsName s) (isMut : Bool) :
    Reads (identPattern g) ((if isMut then [.ident "mut"] else []) ++ .ident name :: s)
      (.plainName name) s := by
  have hName : Reads (do
      let name ← if ← sees (peekWord "self") then anyIdent else ident
      if ← sees (peekOp "@") then
        op "@"
        skip g.pattern
        pure .other
      else pure (if false then .other else .plainName name)) (.ident name :: s)
      (PatternKind.plainName name) s := by
    refine (reads_sees _ _).bind ?_
    rw [peekWord_of_isPlainName h (by decide)]
    refine (reads_ident h s).bind ((reads_sees _ s).bind ?_)
    rw [hs.binding]
    exact reads_pure _ s
  cases isMut with
  | false =>
    refine (reads_wordIf_false (peekWord_of_isPlainName h (by decide) s)).bind ?_
    exact (reads_wordIf_false (peekWord_of_isPlainName h (by decide) s)).takes.skip.bind hName
  | true =>
    refine (reads_wordIf_false rfl).bind ?_
    exact (reads_wordIf "mut" _).takes.skip.bind hName

theorem reads_namePattern {name : String} (h : isPlainName name = true) {s : Tokens}
    (hs : EndsName s) (isMut : Bool) :
    Reads (patternStep g) ((if isMut then [.ident "mut"] else []) ++ .ident name :: s)
      (.plainName name) s := by
  have hRead := reads_boundName (g := g) h hs isMut
  refine (reads_rest _).bind ?_
  cases isMut with
  | true => exact hRead
  | false =>
    have hWord (word : String) (hWord : word ∈ keywords) :=
      peekWord_of_isPlainName h hWord s
    simp only [Bool.false_eq_true, if_false, List.nil_append] at hRead ⊢
    simpa [hWord "self" (by decide), hWord "Self" (by decide), hWord "super" (by decide),
      hWord "crate" (by decide), hWord "_" (by decide), hWord "box" (by decide),
      hWord "const" (by decide), peekLit_of_isPlainName h, hs.colons, hs.bang, hs.brace, hs.parens,
      hs.dots, h, -peekWord_ident] using hRead

theorem reads_alternatives {s t : Tokens} {kind : PatternKind} (hStart : peekOp "|" s = false)
    (h : Reads g.pattern s kind t) (hEnd : peekOp "|" t = false) :
    Reads (patternAlternatives g) s kind t := by
  refine (reads_ifSees_none (by simp [hStart])).takes.skip.bind (h.bind ?_)
  exact (reads_whileSees_nil (by simp [hEnd])).bind (reads_pure kind t)

theorem reads_listedName {name : String} (h : isPlainName name = true) {s : Tokens}
    (hs : s = [] ∨ ∃ t, s = Tokens.operator "," ++ t) :
    Reads (patternAlternatives (Grammar.step g)) (.ident name :: s) (.plainName name) s := by
  refine reads_alternatives rfl (reads_namePattern h ?_ false) ?_
  · rcases hs with rfl | ⟨t, rfl⟩
    · exact endsName_nil
    · exact endsName_op "," (by simp) t
  · rcases hs with rfl | ⟨t, rfl⟩ <;> rfl

theorem reads_pairPattern {first second : String} (hFirst : isPlainName first = true)
    (hSecond : isPlainName second = true) (t : Tokens) :
    Takes (patternStep (Grammar.step g))
      (.group .parenthesis (.ident first :: (Tokens.operator "," ++ [.ident second])) :: t) t := by
  have hNames : Reads (commaList (patternAlternatives (Grammar.step g)))
      (.ident first :: (Tokens.operator "," ++ [.ident second]))
      [.plainName first, .plainName second] [] := by
    refine Separates.reads (.cons rfl (reads_listedName hFirst (.inr ⟨_, rfl⟩)) rfl
      (reads_op "," _) ?_ (.last rfl (reads_listedName hSecond (.inl rfl)) rfl))
    simp [Tokens.operator, Tokens.ofOperatorChars]
  refine Reads.takes (a := .other) ((reads_rest _).bind ?_)
  exact (reads_group .parenthesis hNames t).takes.skip.bind (reads_pure _ t)

theorem reads_somePattern {bound : String} (h : isPlainName bound = true) (t : Tokens) :
    Takes (patternStep (Grammar.step g)) (.ident "Some" :: .group .parenthesis [.ident bound] :: t)
      t := by
  have hSome : IsSegment "Some" := ⟨by decide, .inl (by decide)⟩
  have hBound : Reads (commaList (patternAlternatives (Grammar.step g))) [.ident bound]
      [.plainName bound] [] :=
    Separates.reads (.last rfl (reads_listedName h (.inl rfl)) rfl)
  have hPath : Reads (anyPath (Grammar.step g) true)
      (.ident "Some" :: .group .parenthesis [.ident bound] :: t)
      ⟨false, false, [.mk "Some" .none]⟩ (.group .parenthesis [.ident bound] :: t) := by
    refine (reads_sees _ _).bind ?_
    have hFront : ∀ name ∈ ([] : List String) ++ ["Some"], IsSegment name := by simpa using hSome
    exact reads_plainPath false hFront
      (reads_bareSegment hSome ⟨rfl, fun h => absurd h (by simp [peekOp])⟩) le_rfl rfl
  refine Reads.takes (a := .other) ((reads_rest _).bind ?_)
  refine hPath.bind ((reads_rest _).bind ?_)
  exact (reads_group .parenthesis hBound t).takes.skip.bind (reads_pure _ t)

/-! ## Lists -/

def EndsItem (s : Tokens) : Prop := s = [] ∨ ∃ t, s = Tokens.operator "," ++ t

theorem takes_commaList {α β : Type} {item : Parser β} {tokens : α → Tokens} {as : List α}
    (hNonempty : ∀ a ∈ as, tokens a ≠ [])
    (h : ∀ a ∈ as, ∀ t, EndsItem t → Takes item (tokens a ++ t) t) :
    Takes (commaList item) (Code.commaSeparated (as.map tokens)) [] := by
  have hSeparates : ∃ bs, Separates comma peekEnd item (Code.commaSeparated (as.map tokens)) bs [] := by
    induction as with
    | nil => exact ⟨[], .nil rfl⟩
    | cons a as ih =>
      obtain ⟨hHead, hRest⟩ := List.forall_mem_cons.mp h
      obtain ⟨hFull, hNonempty⟩ := List.forall_mem_cons.mp hNonempty
      have hStarts (t : Tokens) : peekEnd (tokens a ++ t) = false := by simp [peekEnd, hFull]
      cases as with
      | nil =>
        obtain ⟨b, hItem⟩ := hHead [] (.inl rfl)
        have hStart := hStarts []
        rw [List.append_nil] at hStart hItem
        exact ⟨[b], .last hStart hItem rfl⟩
      | cons next as =>
        obtain ⟨bs, hMore⟩ := ih hNonempty hRest
        have hTokens : Code.commaSeparated ((a :: next :: as).map tokens) =
            tokens a ++ (Tokens.operator "," ++ Code.commaSeparated ((next :: as).map tokens)) := by
          simp [Code.commaSeparated, Code.separated, Code.op]
        obtain ⟨b, hItem⟩ := hHead _ (.inr ⟨_, rfl⟩)
        refine ⟨b :: bs, hTokens ▸ .cons (hStarts _) hItem rfl (reads_op "," _) ?_ hMore⟩
        have hComma : (Tokens.operator ",").length = 1 := rfl
        simp only [List.length_append]
        omega
  obtain ⟨bs, hSeparates⟩ := hSeparates
  exact hSeparates.reads.takes

end Parser
end Source
end TraitClient
