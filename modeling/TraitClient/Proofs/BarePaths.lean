import TraitClient.Proofs.ForeignPaths
import TraitClient.Proofs.ParsedNames

/-!
# Paths that are written bare

A path setting may be written with blanks, comments or arguments.  A text without any of these is the
path that it is parsed to, character by character: nothing is skipped in it, and its tokens are
names and colons.
-/
namespace TraitClient

open Text (isIdentContinue)

/-- A character of names or colons; `#` stands in the mark of raw names. -/
def IsBareChar (c : Char) : Prop := c = ':' ∨ c = '#' ∨ isIdentContinue c = true

def IsBare (text : String) : Prop := ∀ c ∈ text.toList, IsBareChar c

instance (c : Char) : Decidable (IsBareChar c) := inferInstanceAs (Decidable (_ ∨ _))

instance (text : String) : Decidable (IsBare text) := inferInstanceAs (Decidable (∀ _ ∈ _, _))

/-! ## Characters -/

theorem identRanges_notBlank : Text.blankRanges.ranges.all (fun r =>
    Text.identContinueRanges.ranges.all fun q => Nat.blt q.2 r.1 || Nat.blt r.2 q.1) = true := by
  decide +kernel

theorem not_isBlank_ascii : ∀ n < 128, isIdentContinue (Char.ofNat n) = true →
    Text.isBlank (Char.ofNat n) = false := by decide

theorem not_isBlank {c : Char} (h : isIdentContinue c = true) : Text.isBlank c = false := by
  by_cases hAscii : c.toNat < 128
  · rw [← Char.ofNat_toNat c] at h ⊢
    exact not_isBlank_ascii _ hAscii h
  · rw [isIdentContinue, if_neg hAscii] at h
    rw [Text.isBlank, if_neg hAscii]
    obtain ⟨q, hq, hWithin⟩ := List.any_eq_true.mp h
    refine List.any_eq_false.mpr fun r hr hBlank => ?_
    have hApart := List.all_eq_true.mp (List.all_eq_true.mp identRanges_notBlank r hr) q hq
    simp only [Bool.and_eq_true, decide_eq_true_eq] at hWithin hBlank
    simp only [Bool.or_eq_true, Nat.blt_eq] at hApart
    omega

theorem toNat_ne_of_isIdentContinue {c : Char} (h : isIdentContinue c = true) {n : Nat}
    (hn : isIdentContinue (Char.ofNat n) = false) : c.toNat ≠ n := by
  rintro rfl
  rw [Char.ofNat_toNat, h] at hn
  cases hn

namespace IsBareChar

variable {c : Char} (h : IsBareChar c)

include h

theorem toNat_ne {n : Nat} (hColon : ':'.toNat ≠ n) (hMark : '#'.toNat ≠ n)
    (hn : isIdentContinue (Char.ofNat n) = false) : c.toNat ≠ n := by
  rcases h with rfl | rfl | hName
  · exact hColon
  · exact hMark
  · exact toNat_ne_of_isIdentContinue hName hn

theorem ne {d : Char} (hColon : ':' ≠ d) (hMark : '#' ≠ d) (hd : isIdentContinue d = false) :
    c ≠ d := by
  rintro rfl
  rcases h with hc | hc | hName
  · exact hColon hc.symm
  · exact hMark hc.symm
  · rw [hd] at hName
    cases hName

theorem isSpace : Source.Lexer.isSpace c = false := by
  have hBlank : Text.isBlank c = false := by
    rcases h with rfl | rfl | hName
    · decide
    · decide
    · exact not_isBlank hName
  have hLeft : c.toNat ≠ 0x200E := h.toNat_ne (by decide) (by decide) (by decide +kernel)
  have hRight : c.toNat ≠ 0x200F := h.toNat_ne (by decide) (by decide) (by decide +kernel)
  simp [Source.Lexer.isSpace, hBlank, hLeft, hRight]

end IsBareChar

theorem isBareChar_of_isToken {name : String} (h : (Code.Word.ident name).isToken = true) :
    ∀ c ∈ name.toList, IsBareChar c := by
  intro c hc
  by_contra hNot
  simp only [IsBareChar, not_or] at hNot
  exact Code.not_mem_of_isToken h (Bool.eq_false_iff.mpr hNot.2.2) hNot.2.1 hc

namespace Source

open Lexer

/-! ## Tokens of a bare text -/

/-- Tokens that a bare text is made of, up to its first literal. -/
inductive BareTokens : Tokens → List Char → Prop
  | nil : BareTokens [] []
  | ident {name : String} {s : Tokens} {chars : List Char} (h : BareTokens s chars) :
    BareTokens (.ident name :: s) (name.toList ++ chars)
  | punct {c : Char} {joint : Bool} {s : Tokens} {chars : List Char} (hc : c ≠ '<')
      (h : BareTokens s chars) : BareTokens (.punct c joint :: s) (c :: chars)
  | literal {text : String} {s : Tokens} {chars : List Char} : BareTokens (.literal text :: s) chars

namespace Lexer

theorem startsWith_eq_false {text : String} {c d : Char} {rest s : List Char}
    (hText : text.toList = d :: rest) (h : c ≠ d) : startsWith text (c :: s) = false := by
  rw [startsWith, hText, skipText?, if_neg (Ne.symm h)]
  rfl

theorem skipSpace_of_ne_slash {c : Char} (hSlash : c ≠ '/') (s : List Char) (fuel : Nat) :
    skipSpace (fuel + 1) (c :: s) = if isSpace c then skipSpace fuel s else c :: s := by
  have hStart (text : String) (rest : List Char) (hText : text.toList = '/' :: rest) :
      startsWith text (c :: s) = false := startsWith_eq_false hText hSlash
  simp [skipSpace, hStart "//" ['/'] rfl, hStart "/**/" ['*', '*', '/'] rfl,
    hStart "/*" ['*'] rfl]

theorem skipSpace_cons {c : Char} (hSlash : c ≠ '/') (hSpace : isSpace c = false) (s : List Char)
    (fuel : Nat) : skipSpace (fuel + 1) (c :: s) = c :: s := by
  rw [skipSpace_of_ne_slash hSlash, hSpace, if_neg Bool.false_ne_true]

theorem docComment?_cons {c : Char} (hSlash : c ≠ '/') (s : List Char) :
    docComment? (c :: s) = none := by
  have hStart (text : String) (rest : List Char) (hText : text.toList = '/' :: rest) :
      startsWith text (c :: s) = false := startsWith_eq_false hText hSlash
  simp [docComment?, isLineDoc, hStart "//!" ['/', '!'] rfl, hStart "/*!" ['*', '!'] rfl,
    hStart "///" ['/', '/'] rfl, hStart "/**" ['*', '*'] rfl]

theorem skipSpace_bare {s : List Char} (hs : ∀ c ∈ s, IsBareChar c) (fuel : Nat) :
    skipSpace (fuel + 1) s = s := by
  cases s with
  | nil => rfl
  | cons c s =>
    have hc := hs c List.mem_cons_self
    exact skipSpace_cons (hc.ne (by decide) (by decide) (by decide)) hc.isSpace s fuel

theorem docComment?_bare {s : List Char} (hs : ∀ c ∈ s, IsBareChar c) : docComment? s = none := by
  cases s with
  | nil => rfl
  | cons c s =>
    exact docComment?_cons
      ((hs c List.mem_cons_self).ne (by decide) (by decide) (by decide)) s

theorem dropMark_bare {s : List Char} (hs : ∀ c ∈ s, IsBareChar c) : dropMark s = s := by
  cases s with
  | nil => rfl
  | cons c s =>
    have hMark : c.toNat ≠ 0xFEFF :=
      (hs c List.mem_cons_self).toNat_ne (by decide) (by decide) (by decide +kernel)
    rw [dropMark, if_neg hMark]

theorem bracket?_bare {c : Char} (hc : IsBareChar c) : opening? c = none ∧ closing? c = none := by
  have hNot (d : Char) (hColon : ':' ≠ d) (hMark : '#' ≠ d) (hd : isIdentContinue d = false) :
      c ≠ d := hc.ne hColon hMark hd
  constructor
  · unfold opening?
    split
    · exact absurd rfl (hNot '(' (by decide) (by decide) (by decide))
    · exact absurd rfl (hNot '[' (by decide) (by decide) (by decide))
    · exact absurd rfl (hNot '\x7b' (by decide) (by decide) (by decide))
    · rfl
  · unfold closing?
    split
    · exact absurd rfl (hNot ')' (by decide) (by decide) (by decide))
    · exact absurd rfl (hNot ']' (by decide) (by decide) (by decide))
    · exact absurd rfl (hNot '\x7d' (by decide) (by decide) (by decide))
    · rfl

theorem punctChar?_eq_some {s rest : List Char} {c : Char} (h : punctChar? s = some (c, rest)) :
    s = c :: rest := by
  unfold punctChar? at h
  split at h
  · cases h
  · split at h
    · split at h
      · cases h
        rfl
      · cases h
    · cases h

theorem punct?_eq_some {s rest : List Char} {t : TokenTree} (h : punct? s = some (t, rest)) :
    ∃ c joint, t = .punct c joint ∧ s = c :: rest := by
  unfold punct? at h
  split at h
  · rename_i hChar
    split at h
    · cases h
    · split at h
      · cases h
        exact ⟨_, _, rfl, punctChar?_eq_some hChar⟩
      · cases h
    · cases h
      exact ⟨_, _, rfl, punctChar?_eq_some hChar⟩
    · cases h
  · rename_i hChar
    cases h
    exact ⟨_, _, rfl, punctChar?_eq_some hChar⟩
  · cases h

theorem leaf?_cases {s rest : List Char} {t : TokenTree} (h : leaf? s = some (t, rest)) :
    (∃ text, t = .literal text) ∨ (∃ c joint, t = .punct c joint ∧ s = c :: rest) ∨
      ∃ name, t = .ident name ∧ s = name.toList ++ rest := by
  unfold leaf? at h
  cases hLiteral : literal? s with
  | some end_ =>
    rw [hLiteral] at h
    cases h
    exact .inl ⟨_, rfl⟩
  | none =>
    rw [hLiteral] at h
    cases hPunct : punct? s with
    | some found =>
      rw [hPunct] at h
      obtain rfl := Option.some.inj h
      exact .inr (.inl (punct?_eq_some hPunct))
    | none =>
      rw [hPunct] at h
      obtain ⟨end_, hIdent, hFound⟩ := Option.map_eq_some_iff.mp h
      cases hFound
      unfold ident? at hIdent
      split at hIdent
      · cases hIdent
      · obtain ⟨name, rfl, _⟩ := identAny?_eq_some hIdent
        rw [before_append]
        exact .inr (.inr ⟨_, rfl, by rw [String.toList_ofList]⟩)

def outermost (stack : List (Delimiter × Tokens)) (done : Tokens) : Tokens :=
  match stack.getLast? with
  | none => done
  | some (_, outer) => outer

theorem outermost_cons (group : Delimiter × Tokens) (stack : List (Delimiter × Tokens))
    (done : Tokens) : outermost (group :: stack) done = outermost stack group.2 := by
  cases stack with
  | nil => rfl
  | cons group' stack => simp [outermost, List.getLast?_cons]

theorem outermost_append (stack : List (Delimiter × Tokens)) (more done : Tokens) :
    ∃ front, outermost stack (more ++ done) = front ++ outermost stack done := by
  unfold outermost
  cases stack.getLast? with
  | none => exact ⟨more, rfl⟩
  | some group => exact ⟨[], rfl⟩

theorem trees?_prefix {fuel : Nat} {stack : List (Delimiter × Tokens)} {done : Tokens}
    {s : List Char} {result : Tokens} (h : trees? fuel stack done s = some result) :
    ∃ more, result = (outermost stack done).reverse ++ more := by
  induction fuel generalizing stack done s with
  | zero => cases h
  | succ fuel ih =>
    have hMore {stack : List (Delimiter × Tokens)} {new done : Tokens}
        (hNew : ∃ more, result = (outermost stack (new ++ done)).reverse ++ more) :
        ∃ more, result = (outermost stack done).reverse ++ more := by
      obtain ⟨more, rfl⟩ := hNew
      obtain ⟨front, hFront⟩ := outermost_append stack new done
      exact ⟨front.reverse ++ more, by rw [hFront, List.reverse_append, List.append_assoc]⟩
    rw [trees?] at h
    split at h
    · exact hMore (ih h)
    · split at h
      · split at h
        · rename_i hEmpty
          cases h
          rw [List.isEmpty_iff.mp hEmpty]
          exact ⟨[], (List.append_nil _).symm⟩
        · cases h
      · split at h
        · have hOpened := ih h
          rwa [outermost_cons] at hOpened
        · split at h
          · split at h
            · split at h
              · rw [outermost_cons]
                exact @hMore _ [_] _ (ih h)
              · cases h
            · cases h
          · split at h
            · exact @hMore _ [_] _ (ih h)
            · cases h

theorem trees?_bare {fuel : Nat} {done : Tokens} {s : List Char} {result : Tokens}
    (hs : ∀ c ∈ s, IsBareChar c) (h : trees? fuel [] done s = some result) :
    ∃ new, result = done.reverse ++ new ∧ BareTokens new s := by
  induction fuel generalizing done s with
  | zero => cases h
  | succ fuel ih =>
    rw [trees?, skipSpace_bare hs] at h
    simp only [docComment?_bare hs] at h
    cases s with
    | nil =>
      cases h
      exact ⟨[], (List.append_nil _).symm, .nil⟩
    | cons c s =>
      obtain ⟨hOpening, hClosing⟩ := bracket?_bare (hs c List.mem_cons_self)
      simp only [hOpening, hClosing] at h
      split at h
      · rename_i t rest hLeaf
        have hNext (hRest : ∀ c ∈ rest, IsBareChar c) :
            ∃ new, result = done.reverse ++ t :: new ∧ BareTokens new rest := by
          obtain ⟨new, hNew, hTokens⟩ := ih hRest h
          exact ⟨new, by rw [hNew, List.reverse_cons, List.append_assoc, List.singleton_append],
            hTokens⟩
        -- A literal may take text that is not bare, so that nothing is said of what follows it.
        rcases leaf?_cases hLeaf with ⟨text, rfl⟩ | ⟨d, joint, rfl, hText⟩ | ⟨name, rfl, hText⟩
        · obtain ⟨more, hMore⟩ := trees?_prefix h
          refine ⟨.literal text :: more, ?_, .literal⟩
          rw [hMore, outermost, List.getLast?_nil, List.reverse_cons, List.append_assoc,
            List.singleton_append]
        · rw [hText] at hs ⊢
          obtain ⟨hd, hRest⟩ := List.forall_mem_cons.mp hs
          obtain ⟨new, hNew, hTokens⟩ := hNext hRest
          exact ⟨_, hNew, .punct (hd.ne (by decide) (by decide) (by decide)) hTokens⟩
        · rw [hText] at hs ⊢
          obtain ⟨new, hNew, hTokens⟩ := hNext (List.forall_mem_append.mp hs).2
          exact ⟨_, hNew, .ident hTokens⟩
      · cases h

theorem lex?_bare {text : String} (hText : IsBare text) {s : Tokens} (h : lex? text = some s) :
    BareTokens s text.toList := by
  rw [lex?, lexChars?, dropMark_bare hText] at h
  obtain ⟨new, rfl, hTokens⟩ := trees?_bare hText h
  exact hTokens

end Lexer
/-! ## Paths of bare tokens -/

namespace BareTokens

variable {s : Tokens} {chars : List Char}

theorem of_ident {name : String} (h : BareTokens (.ident name :: s) chars) :
    ∃ rest, chars = name.toList ++ rest ∧ BareTokens s rest := by
  cases h with
  | ident h => exact ⟨_, rfl, h⟩

theorem of_punct {c : Char} {joint : Bool} (h : BareTokens (.punct c joint :: s) chars) :
    c ≠ '<' ∧ ∃ rest, chars = c :: rest ∧ BareTokens s rest := by
  cases h with
  | punct hc h => exact ⟨hc, _, rfl, h⟩

theorem peekOp_angle (h : BareTokens s chars) : peekOp "<" s = false := by
  cases h with
  | nil | ident | literal => rfl
  | punct hc => exact beq_false_of_ne (Ne.symm hc)

theorem of_takeChars {operator : List Char} {t : Tokens} (h : BareTokens s chars)
    (hTake : Parser.takeChars operator s = some t) :
    ∃ rest, chars = operator ++ rest ∧ BareTokens t rest := by
  induction operator generalizing s chars with
  | nil =>
    cases hTake
    exact ⟨chars, rfl, h⟩
  | cons c operator ih =>
    cases s with
    | nil => cases operator <;> cases hTake
    | cons token s =>
      cases token with
      | punct d joint =>
        obtain ⟨-, rest, rfl, hRest⟩ := h.of_punct
        cases operator with
        | nil =>
          rw [Parser.takeChars] at hTake
          split at hTake
          · rename_i hSame
            cases hTake
            obtain rfl := beq_iff_eq.mp hSame
            exact ⟨rest, rfl, hRest⟩
          · cases hTake
        | cons e operator =>
          rw [Parser.takeChars] at hTake
          · split at hTake
            · rename_i hSame
              obtain rfl := beq_iff_eq.mp (Bool.and_eq_true_iff.mp hSame).1
              obtain ⟨more, rfl, hMore⟩ := ih hRest hTake
              exact ⟨more, rfl, hMore⟩
            · cases hTake
          · simp
      | ident | literal | group => cases operator <;> cases hTake

theorem exists_of_peekColons (h : peekOp "::" s = true) :
    ∃ joint t, s = .punct ':' true :: .punct ':' joint :: t := by
  rcases s with _ | ⟨_ | ⟨c, joint⟩ | _ | _, _ | ⟨_ | ⟨d, joint'⟩ | _ | _, t⟩⟩ <;>
    simp [peekOp, peekChars] at h
  obtain ⟨⟨rfl, rfl⟩, rfl⟩ := h
  exact ⟨joint', t, rfl⟩

theorem colons_angle (h : BareTokens s chars) :
    (peekOp "::" s && peek3 (peekOp "<") s) = false := by
  cases hColons : peekOp "::" s with
  | false => rfl
  | true =>
    obtain ⟨joint, t, rfl⟩ := exists_of_peekColons hColons
    obtain ⟨-, _, -, hRest⟩ := h.of_punct
    obtain ⟨-, _, -, hRest⟩ := hRest.of_punct
    simp [peek3, peek2, skipOne, hRest.peekOp_angle]

end BareTokens

namespace Parser

variable {α : Type} {s t : Tokens}

theorem Reads.anyIdent_eq {name : String} (h : Reads anyIdent s name t) : s = .ident name :: t := by
  obtain ⟨w, h⟩ := h
  unfold anyIdent at h
  split at h
  · cases h
    rfl
  · cases h

theorem Reads.ident_eq {name : String} (h : Reads ident s name t) : s = .ident name :: t := by
  obtain ⟨w, h⟩ := h
  unfold ident at h
  split at h
  · split at h
    · cases h
      rfl
    · cases h
  · cases h

theorem Reads.pure_eq {a b : α} (h : Reads (pure a) s b t) : b = a ∧ t = s := by
  obtain ⟨w, h⟩ := h
  cases h
  exact ⟨rfl, rfl⟩

theorem Reads.op_takeChars {text : String} (h : Reads (op text) s () t) :
    takeChars text.toList s = some t := by
  obtain ⟨w, h⟩ := h
  obtain ⟨u, hTake, hSame⟩ := Option.map_eq_some_iff.mp h
  cases hSame
  exact hTake

theorem Reads.opIf_cases {text : String} {b : Bool} (h : Reads (opIf text) s b t) :
    b = true ∧ takeChars text.toList s = some t ∨ b = false ∧ t = s := by
  replace h := Reads.of_looks_bind (p := sees (peekOp text)) rfl h
  split at h
  · obtain ⟨_, u, hOp, hPure⟩ := h.of_bind
    obtain ⟨rfl, rfl⟩ := hPure.pure_eq
    exact .inl ⟨rfl, hOp.op_takeChars⟩
  · exact .inr h.pure_eq

theorem Reads.ifSees_cases {peek : Tokens → Bool} {p : Parser α} {o : Option α}
    (h : Reads (ifSees peek p) s o t) : o = none ∧ t = s ∨ ∃ a, o = some a ∧ Reads p s a t := by
  replace h := Reads.of_looks_bind (p := sees peek) rfl h
  unfold when at h
  split at h
  · obtain ⟨a, u, hFirst, hPure⟩ := Reads.of_bind (p := p) (f := pure ∘ some) h
    obtain ⟨rfl, rfl⟩ := hPure.pure_eq
    exact .inr ⟨a, rfl, hFirst⟩
  · exact .inl h.pure_eq

variable {g : Grammar} {bound : Parser Unit} {inExpr : Bool} {chars : List Char}

theorem Reads.bareSegment {segment : TypeSegment} (hBare : BareTokens s chars)
    (h : Reads (pathSegment g bound inExpr) s segment t) :
    ∃ rest, chars = segment.name.toList ++ rest ∧ BareTokens t rest := by
  replace h := Reads.of_looks_bind (p := rest) rfl h
  split at h
  · obtain ⟨name, u, hName, hPure⟩ := h.of_bind
    obtain ⟨rfl, rfl⟩ := hPure.pure_eq
    obtain rfl := hName.anyIdent_eq
    exact hBare.of_ident
  · have hNamed (name : String) (u : Tokens) (hName : s = .ident name :: u) (hTail : Reads (do
        let s ← Parser.rest
        if (!inExpr && peekOp "<" s && !peekOp "<=" s) || (peekOp "::" s && peek3 (peekOp "<") s) then
          let arguments ← angleArguments g bound
          pure (TypeSegment.mk name (.angle arguments))
        else pure (TypeSegment.mk name .none)) u segment t) :
        ∃ rest, chars = segment.name.toList ++ rest ∧ BareTokens t rest := by
      subst hName
      obtain ⟨rest, rfl, hRest⟩ := hBare.of_ident
      replace hTail := Reads.of_looks_bind (p := Parser.rest) rfl hTail
      rw [hRest.peekOp_angle, hRest.colons_angle] at hTail
      simp only [Bool.and_false, Bool.false_and, Bool.or_self, Bool.false_eq_true, if_false] at hTail
      obtain ⟨rfl, rfl⟩ := hTail.pure_eq
      exact ⟨rest, rfl, hRest⟩
    dsimp only at h
    split at h
    · obtain ⟨name, u, hName, h⟩ := h.of_bind
      exact hNamed name u hName.anyIdent_eq h
    · obtain ⟨name, u, hName, h⟩ := h.of_bind
      exact hNamed name u hName.ident_eq h

theorem Reads.bareSegments {segments : List TypeSegment} (hBare : BareTokens s chars)
    (h : Reads (moreSegments g bound inExpr) s segments t) :
    ∃ rest, chars = segments.flatMap (fun segment => ':' :: ':' :: segment.name.toList) ++ rest ∧
      BareTokens t rest := by
  have hFuel (fuel : Nat) (s : Tokens) (chars : List Char) (segments : List TypeSegment)
      (hBare : BareTokens s chars)
      (h : Reads (repeatAtMost (ifSees (fun s => peekOp "::" s && !peek3 (peekGroup .parenthesis) s) do
        op "::"
        pathSegment g bound inExpr) fuel) s segments t) :
      ∃ rest, chars = segments.flatMap (fun segment => ':' :: ':' :: segment.name.toList) ++ rest ∧
        BareTokens t rest := by
    induction fuel generalizing s chars segments with
    | zero =>
      obtain ⟨w, h⟩ := h
      cases h
    | succ fuel ih =>
      obtain ⟨o, u, hStep, hAfter⟩ := h.of_bind
      rcases hStep.ifSees_cases with ⟨rfl, rfl⟩ | ⟨first, rfl, hFirst⟩
      · obtain ⟨rfl, rfl⟩ := hAfter.pure_eq
        exact ⟨chars, rfl, hBare⟩
      · obtain ⟨more, v, hMore, hPure⟩ := hAfter.of_bind
        obtain ⟨rfl, rfl⟩ := hPure.pure_eq
        obtain ⟨_, x, hColons, hSegment⟩ := hFirst.of_bind
        obtain ⟨_, rfl, hBehind⟩ := hBare.of_takeChars hColons.op_takeChars
        obtain ⟨chars, rfl, hNext⟩ := hSegment.bareSegment hBehind
        obtain ⟨rest, rfl, hRest⟩ := ih u chars more hNext hMore
        exact ⟨rest, by simp, hRest⟩
  obtain ⟨w, h⟩ := h
  exact hFuel _ s chars segments hBare ⟨w, h⟩

end Parser

theorem toList_joinPath (first : String) (more : List String) :
    (joinPath (first :: more)).toList =
      first.toList ++ more.flatMap fun name => ':' :: ':' :: name.toList := by
  induction more generalizing first with
  | nil => simp [joinPath_singleton]
  | cons second more ih =>
    rw [joinPath_cons_cons, String.toList_append, String.toList_append, ih]
    simp

theorem Parser.Reads.barePath {g : Grammar} {bound : Parser Unit} {inExpr : Bool} {s : Tokens}
    {chars : List Char} {path : AnyPath} (hBare : BareTokens s chars)
    (h : Reads (plainPath g bound inExpr) s path []) :
    chars = (writtenPath path.leadingColon (path.segments.map (·.name))).toList := by
  obtain ⟨leadingColon, t, hStart, hAfter⟩ := h.of_bind
  obtain ⟨first, u, hFirst, hAfter⟩ := hAfter.of_bind
  obtain ⟨more, v, hMore, hPure⟩ := hAfter.of_bind
  obtain ⟨rfl, rfl⟩ := hPure.pure_eq
  have hNames (chars : List Char) (hTokens : BareTokens t chars) :
      chars = (joinPath ((first :: more).map (·.name))).toList := by
    obtain ⟨_, rfl, hBehind⟩ := hFirst.bareSegment hTokens
    obtain ⟨_, rfl, hEnd⟩ := hMore.bareSegments hBehind
    cases hEnd
    rw [List.map_cons, toList_joinPath, List.flatMap_map, List.append_nil]
  rcases hStart.opIf_cases with ⟨rfl, hColons⟩ | ⟨rfl, rfl⟩
  · obtain ⟨behind, rfl, hBehind⟩ := hBare.of_takeChars hColons
    rw [writtenPath, if_pos rfl, String.toList_append, hNames _ hBehind]
  · rw [writtenPath, if_neg Bool.false_ne_true, String.empty_append, hNames _ hBare]

/-- A bare text is the path that it is parsed to. -/
theorem parsePath?_bare {text : String} (hText : IsBare text) {path : PathExpr}
    (h : parsePath? text = some path) :
    text = writtenPath path.leadingColon (path.segments.map (·.name)) := by
  obtain ⟨s, hLex, h⟩ := Option.bind_eq_some_iff.mp h
  obtain ⟨⟨found, tokens⟩, hRun, hPath⟩ := Option.bind_eq_some_iff.mp h
  cases hPath
  unfold Parser.run? at hRun
  split at hRun
  · rename_i hWhole
    cases hRun
    obtain ⟨r, hFound, hSame⟩ := Option.map_eq_some_iff.mp hWhole
    obtain ⟨value, written, rest⟩ := r
    cases hSame
    have hChars := Parser.Reads.barePath (Lexer.lex?_bare hText hLex) ⟨_, hFound⟩
    exact String.toList_injective hChars
  · cases hRun

end Source
end TraitClient
