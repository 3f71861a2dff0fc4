import TraitClient.Proofs.BarePaths

/-!
# Lexing written tokens

The text form of tokens is lexed back to them.  Each token ends where a blank or the end of its
group stands, so that one token after the other is found.
-/
namespace TraitClient.Source

open Code (Word)
open Text

namespace Lexer

/-! ## Ends of tokens -/

/-- What stands behind a token that is not joined to the next one. -/
def Ends (s : List Char) : Prop := ∀ c ∈ s.head?, c = ' ' ∨ c = ')' ∨ c = ']'

theorem ends_nil : Ends [] := by simp [Ends]

theorem ends_blank (s : List Char) : Ends (' ' :: s) := by simp [Ends]

theorem Ends.not_continues {s : List Char} (h : Ends s) :
    ∀ c ∈ s.head?, isIdentContinue c = false := by
  intro c hc
  rcases h c hc with rfl | rfl | rfl <;> decide

theorem identBody?_append {name rest : List Char} (hName : isIdentText name = true)
    (hRest : Ends rest) : identBody? (name ++ rest) = some rest := by
  cases name with
  | nil => cases hName
  | cons c name =>
    obtain ⟨hStart, hAll⟩ := Bool.and_eq_true_iff.mp hName
    rw [List.cons_append, identBody?, if_pos hStart,
      List.dropWhile_append_of_pos (List.all_eq_true.mp hAll)]
    cases rest with
    | nil => rfl
    | cons d rest => rw [List.dropWhile_cons, hRest.not_continues d rfl]; rfl

theorem skipSuffix_ends {rest : List Char} (hRest : Ends rest) : skipSuffix rest = rest := by
  have hNone : identBody? rest = none := by
    cases rest with
    | nil => rfl
    | cons c rest =>
      have hStart : isIdentStart c = false := by
        rcases hRest c rfl with rfl | rfl | rfl <;> decide
      rw [identBody?, if_neg (by rw [hStart]; decide)]
  rw [skipSuffix, hNone, Option.getD_none]

/-! ## No literals -/

/-- Nothing that would make a literal of the letter before it. -/
def Quiet (s : List Char) : Prop := ∀ c ∈ s.head?, c ≠ '"' ∧ c ≠ '\'' ∧ c ≠ '#'

theorem Quiet.skipText? {s : List Char} (h : Quiet s) {d : Char} (hd : d = '"' ∨ d = '\'' ∨ d = '#')
    (text : List Char) : skipText? (d :: text) s = none := by
  cases s with
  | nil => rfl
  | cons c s =>
    obtain ⟨hQuote, hSingle, hHash⟩ := h c rfl
    have hNe : d ≠ c := by
      rintro rfl
      rcases hd with rfl | rfl | rfl <;> contradiction
    rw [Lexer.skipText?, if_neg hNe]

theorem Quiet.raw? {s : List Char} (h : Quiet s) (char : Char → Bool) : raw? char s = none := by
  cases s with
  | nil => rfl
  | cons c s =>
    obtain ⟨hQuote, _, hHash⟩ := h c rfl
    simp [Lexer.raw?, hHash, hQuote]

theorem digits?_of_no_digit {c : Char} (h : c.isDigit = false) (s : List Char) :
    digits? 10 (c :: s) = none := by
  have hNoDigit : ¬('0' ≤ c ∧ c ≤ '9') := by
    rintro ⟨hLow, hHigh⟩
    have hDigit : c.isDigit = true := by
      rw [Char.isDigit, Bool.and_eq_true, decide_eq_true_eq, decide_eq_true_eq]
      exact ⟨hLow, hHigh⟩
    rw [h] at hDigit
    cases hDigit
  rw [digits?, digits?.scan]
  split
  · simp
  · unfold hexDigit?
    rw [if_neg hNoDigit]
    split
    · rename_i d hHex
      have hLarge : 10 ≤ d := by
        split at hHex
        · cases hHex
          omega
        · split at hHex
          · cases hHex
            omega
          · cases hHex
      rw [if_neg (by omega), if_neg (by omega), if_pos rfl]
    · rfl

theorem literal?_eq_none {c : Char} {s : List Char} (hQuote : c ≠ '"') (hSingle : c ≠ '\'')
    (hDigit : c.isDigit = false) (hRaw : c = 'r' → ∀ char, raw? char s = none)
    (hPrefix : c = 'b' ∨ c = 'c' → Quiet s ∧ ∀ t, s = 'r' :: t → Quiet t) :
    literal? (c :: s) = none := by
  have hAfter (opening : String) {d : Char} {text : List Char} (hText : opening.toList = d :: text)
      {scan : Scanner} (h : c = d → (skipText? text s).bind scan = none) :
      after opening scan (c :: s) = none := by
    rw [after, hText, skipText?]
    split
    · exact h (Eq.symm ‹_›)
    · rfl
  have hQuiet {text : List Char} {d : Char} {scan : Scanner} (hd : d = '"' ∨ d = '\'' ∨ d = '#')
      (hc : c = 'b' ∨ c = 'c') : (skipText? (d :: text) s).bind scan = none := by
    rw [(hPrefix hc).1.skipText? hd, Option.bind_none]
  have hQuietRaw {char : Char → Bool} (hc : c = 'b' ∨ c = 'c') :
      (skipText? ['r'] s).bind (raw? char) = none := by
    cases s with
    | nil => rfl
    | cons d t =>
      rw [skipText?]
      split
      · rename_i hLetter
        subst hLetter
        exact ((hPrefix hc).2 t rfl).raw? char
      · rfl
  have hFloat : floatDigits? (c :: s) = none := by simp [floatDigits?, hDigit]
  have hZero : c ≠ '0' := by
    rintro rfl
    cases hDigit
  have hInt : intDigits? (c :: s) = none := by
    have hStart (text : String) (rest : List Char) (hText : text.toList = '0' :: rest) :
        startsWith text (c :: s) = false := startsWith_eq_false hText hZero
    rw [intDigits?, hStart "0x" ['x'] rfl, hStart "0o" ['o'] rfl, hStart "0b" ['b'] rfl]
    exact digits?_of_no_digit hDigit s
  have hRawNone (char : Char → Bool) : after "r" (raw? char) (c :: s) = none :=
    hAfter "r" rfl fun h => show (skipText? [] s).bind (raw? char) = none from hRaw h char
  unfold literal?
  dsimp only
  rw [hAfter "\"" rfl fun h => absurd h hQuote, hRawNone,
    hAfter "b\"" rfl fun h => hQuiet (.inl rfl) (.inl h),
    hAfter "br" rfl fun h => hQuietRaw (.inl h),
    hAfter "c\"" rfl fun h => hQuiet (.inl rfl) (.inr h),
    hAfter "cr" rfl fun h => hQuietRaw (.inr h),
    hAfter "b'" rfl fun h => hQuiet (.inr (.inl rfl)) (.inl h),
    hAfter "'" rfl fun h => absurd h hSingle, hFloat, hInt]
  rfl

/-! ## Names -/

theorem not_isDigit_ascii : ∀ n < 128, isIdentStart (Char.ofNat n) = true →
    (Char.ofNat n).isDigit = false := by decide

theorem not_isDigit {c : Char} (h : isIdentStart c = true) : c.isDigit = false := by
  by_cases hAscii : c.toNat < 128
  · rw [← Char.ofNat_toNat c] at h ⊢
    exact not_isDigit_ascii _ hAscii h
  · refine Bool.eq_false_iff.mpr fun hDigit => hAscii ?_
    rw [Char.isDigit, Bool.and_eq_true, decide_eq_true_eq, decide_eq_true_eq] at hDigit
    exact Nat.lt_of_le_of_lt hDigit.2 (by decide)

theorem ne_of_isIdentContinue {c d : Char} (h : isIdentContinue c = true)
    (hd : isIdentContinue d = false) : c ≠ d := by
  rintro rfl
  rw [h] at hd
  cases hd

theorem quiet_append {word rest : List Char} (hWord : ∀ c ∈ word, isIdentContinue c = true)
    (hRest : Ends rest) : Quiet (word ++ rest) := by
  intro c hc
  cases word with
  | nil => rcases hRest c hc with rfl | rfl | rfl <;> decide
  | cons d word =>
    cases hc
    have hc := hWord c List.mem_cons_self
    exact ⟨ne_of_isIdentContinue hc (by decide), ne_of_isIdentContinue hc (by decide),
      ne_of_isIdentContinue hc (by decide)⟩

theorem quiet_tail {word rest t : List Char} (hWord : ∀ c ∈ word, isIdentContinue c = true)
    (hRest : Ends rest) (h : word ++ rest = 'r' :: t) : Quiet t := by
  cases word with
  | nil =>
    obtain rfl : rest = 'r' :: t := h
    rcases hRest 'r' rfl with hEnd | hEnd | hEnd <;> cases hEnd
  | cons c word =>
    cases h
    exact quiet_append (fun d hd => hWord d (List.mem_cons_of_mem _ hd)) hRest

theorem punctChar?_of_not_mem {c : Char} (h : c ∉ punctChars) (s : List Char) :
    punctChar? (c :: s) = none := by
  have hNot : punctChars.contains c = false := by
    rw [Bool.eq_false_iff, ne_eq, List.contains_iff_mem]
    exact h
  unfold punctChar?
  split
  · rfl
  · simp only [hNot, Bool.false_eq_true, if_false]

/-- What holds of each of the punctuation characters, tried one by one. -/
theorem forall_punctChars {p : Char → Bool} (h : punctChars.all p = true) {c : Char}
    (hMem : c ∈ punctChars) : p c = true := List.all_eq_true.mp h c hMem

theorem punct?_of_isIdentContinue {c : Char} (h : isIdentContinue c = true) (s : List Char) :
    punct? (c :: s) = none := by
  have hNot : c ∉ punctChars := fun hMem => by
    have hPunct := forall_punctChars (p := fun d => !isIdentContinue d) (by decide) hMem
    rw [h] at hPunct
    cases hPunct
  rw [punct?, punctChar?_of_not_mem hNot]

theorem startsWith_of_skipText? {text : String} {d : Char} {rest s : List Char} (c : Char)
    (hText : text.toList = d :: rest) (h : skipText? rest s = none) :
    startsWith text (c :: s) = false := by
  rw [startsWith, hText, skipText?, h]
  split <;> rfl

theorem skipText?_letter {s : List Char} (hTail : ∀ t, s = 'r' :: t → Quiet t) {d : Char}
    (hd : d = '"' ∨ d = '\'' ∨ d = '#') : skipText? ['r', d] s = none := by
  cases s with
  | nil => rfl
  | cons c t =>
    rw [skipText?]
    split
    · rename_i hLetter
      subst hLetter
      exact (hTail t rfl).skipText? hd []
    · rfl

theorem ident?_of_quiet {s : List Char} (c : Char) (hQuiet : Quiet s)
    (hTail : ∀ t, s = 'r' :: t → Quiet t) : ident? (c :: s) = identBody? (c :: s) := by
  have hNone : literalPrefixes.any (startsWith · (c :: s)) = false := by
    simp only [literalPrefixes, List.any_cons, List.any_nil, Bool.or_false, Bool.or_eq_false_iff]
    refine ⟨?_, ?_, ?_, ?_, ?_, ?_, ?_, ?_, ?_, ?_⟩
    · exact startsWith_of_skipText? c rfl (hQuiet.skipText? (.inl rfl) _)
    · exact startsWith_of_skipText? c rfl (hQuiet.skipText? (.inr (.inr rfl)) _)
    · exact startsWith_of_skipText? c rfl (hQuiet.skipText? (.inr (.inr rfl)) _)
    · exact startsWith_of_skipText? c rfl (hQuiet.skipText? (.inl rfl) _)
    · exact startsWith_of_skipText? c rfl (hQuiet.skipText? (.inr (.inl rfl)) _)
    · exact startsWith_of_skipText? c rfl (skipText?_letter hTail (.inl rfl))
    · exact startsWith_of_skipText? c rfl (skipText?_letter hTail (.inr (.inr rfl)))
    · exact startsWith_of_skipText? c rfl (hQuiet.skipText? (.inl rfl) _)
    · exact startsWith_of_skipText? c rfl (skipText?_letter hTail (.inl rfl))
    · exact startsWith_of_skipText? c rfl (skipText?_letter hTail (.inr (.inr rfl)))
  have hRaw : startsWith "r#" (c :: s) = false :=
    startsWith_of_skipText? c rfl (hQuiet.skipText? (.inr (.inr rfl)) _)
  rw [ident?, hNone, if_neg Bool.false_ne_true, identAny?, hRaw, if_neg Bool.false_ne_true]

theorem leaf?_of_ident {s rest : List Char} (hLiteral : literal? s = none)
    (hPunct : punct? s = none) (hIdent : ident? s = some rest) :
    leaf? s = some (.ident (String.ofList (before s rest)), rest) := by
  rw [leaf?, hLiteral, hPunct, hIdent]
  rfl

theorem leaf?_plainName {name : String} (hName : isIdentText name.toList = true) {rest : List Char}
    (hRest : Ends rest) : leaf? (name.toList ++ rest) = some (.ident name, rest) := by
  have hBody := identBody?_append hName hRest
  have hAll := Code.forall_isIdentContinue hName
  have hBefore : String.ofList (before (name.toList ++ rest) rest) = name := by
    rw [before_append, String.ofList_toList]
  cases hChars : name.toList with
  | nil =>
    rw [hChars] at hName
    cases hName
  | cons c word =>
    rw [hChars] at hName hAll hBody hBefore
    obtain ⟨hc, hWord⟩ := List.forall_mem_cons.mp hAll
    have hStart := (Bool.and_eq_true_iff.mp hName).1
    have hQuiet := quiet_append hWord hRest
    have hTail (t : List Char) (h : word ++ rest = 'r' :: t) : Quiet t := quiet_tail hWord hRest h
    rw [List.cons_append] at hBody hBefore ⊢
    have hLiteral : literal? (c :: (word ++ rest)) = none :=
      literal?_eq_none (ne_of_isIdentContinue hc (by decide)) (ne_of_isIdentContinue hc (by decide))
        (not_isDigit hStart) (fun _ => hQuiet.raw?) fun _ => ⟨hQuiet, hTail⟩
    have hIdent : ident? (c :: (word ++ rest)) = some rest :=
      (ident?_of_quiet c hQuiet hTail).trans hBody
    rw [leaf?_of_ident hLiteral (punct?_of_isIdentContinue hc _) hIdent, hBefore]

theorem leaf?_rawName {name : String} {raw : List Char} (hName : name.toList = 'r' :: '#' :: raw)
    (hToken : (Word.ident name).isToken = true) {rest : List Char} (hRest : Ends rest) :
    leaf? (name.toList ++ rest) = some (.ident name, rest) := by
  rw [Code.isToken_of_raw hName, Bool.and_eq_true, Bool.not_eq_true'] at hToken
  obtain ⟨hText, hRawable⟩ := hToken
  have hBefore : String.ofList (before (name.toList ++ rest) rest) = name := by
    rw [before_append, String.ofList_toList]
  have hBody := identBody?_append hText hRest
  cases raw with
  | nil => cases hText
  | cons c word =>
    have hc := Code.forall_isIdentContinue hText c List.mem_cons_self
    have hQuote : c ≠ '"' := ne_of_isIdentContinue hc (by decide)
    have hHash : c ≠ '#' := ne_of_isIdentContinue hc (by decide)
    have hRaw (char : Char → Bool) : raw? char ('#' :: c :: (word ++ rest)) = none := by
      simp [raw?, hHash, hQuote]
    rw [hName] at hBefore ⊢
    rw [List.cons_append, List.cons_append, List.cons_append] at hBefore ⊢
    have hLiteral : literal? ('r' :: '#' :: c :: (word ++ rest)) = none :=
      literal?_eq_none (by decide) (by decide) (by decide) (fun _ => hRaw) fun h => by
        rcases h with h | h <;> cases h
    have hIdent : ident? ('r' :: '#' :: c :: (word ++ rest)) = some rest := by
      have hNone :
          literalPrefixes.any (startsWith · ('r' :: '#' :: c :: (word ++ rest))) = false := by
        simp [literalPrefixes, startsWith, skipText?, Ne.symm hQuote, Ne.symm hHash]
      have hRawMark : startsWith "r#" ('r' :: '#' :: c :: (word ++ rest)) = true := rfl
      rw [ident?, hNone, if_neg Bool.false_ne_true, identAny?, hRawMark, if_pos rfl]
      dsimp only [List.drop]
      rw [← List.cons_append, hBody]
      dsimp only
      have hFree : unrawable.contains (String.ofList (c :: word)) = false := hRawable
      rw [before_append, hFree, if_neg Bool.false_ne_true]
    rw [leaf?_of_ident hLiteral (punct?_of_isIdentContinue (by decide) _) hIdent, hBefore]

theorem leaf?_name {name : String} (hToken : (Word.ident name).isToken = true) {rest : List Char}
    (hRest : Ends rest) : leaf? (name.toList ++ rest) = some (.ident name, rest) := by
  cases hRaw : Naming.isRaw name with
  | true =>
    obtain ⟨raw, hName⟩ := Code.isRaw_eq_true_iff.mp hRaw
    exact leaf?_rawName hName hToken hRest
  | false =>
    rw [Code.isToken_of_not_raw hRaw] at hToken
    exact leaf?_plainName hToken hRest

/-! ## Strings -/

/-- A character that stands for itself in a string. -/
structure IsVerbatim (c : Char) : Prop where
  quote : c ≠ '"'
  backslash : c ≠ '\\'
  carriageReturn : c ≠ '\r'

theorem quoted_verbatim {body rest : List Char} (h : ∀ c ∈ body, IsVerbatim c) (hRest : Ends rest)
    {fuel : Nat} (hFuel : body.length < fuel) :
    quoted textForm fuel (body ++ '"' :: rest) = some rest := by
  induction body generalizing fuel with
  | nil =>
    obtain ⟨fuel, rfl⟩ := Nat.exists_eq_add_one_of_ne_zero (Nat.ne_zero_of_lt hFuel)
    rw [List.nil_append, quoted, skipSuffix_ends hRest]
  | cons c body ih =>
    obtain ⟨hc, hBody⟩ := List.forall_mem_cons.mp h
    obtain ⟨fuel, rfl⟩ := Nat.exists_eq_add_one_of_ne_zero (Nat.ne_zero_of_lt hFuel)
    have hStep := ih hBody (Nat.lt_of_succ_lt_succ hFuel)
    rw [List.cons_append, quoted]
    · exact hStep
    · exact hc.quote
    · exact fun _ hReturn _ => hc.carriageReturn hReturn
    · exact hc.carriageReturn
    · exact fun _ _ hEscape _ => hc.backslash hEscape

theorem leaf?_string {body rest : List Char} (h : ∀ c ∈ body, IsVerbatim c) (hRest : Ends rest) :
    leaf? ('"' :: (body ++ '"' :: rest)) =
      some (.literal (String.ofList ('"' :: body ++ ['"'])), rest) := by
  have hLiteral : literal? ('"' :: (body ++ '"' :: rest)) = some rest := by
    have hQuoted : quoted textForm (('"' :: (body ++ '"' :: rest)).length + 1)
        (body ++ '"' :: rest) = some rest :=
      quoted_verbatim h hRest (by simp only [List.length_cons, List.length_append]; omega)
    have hOpening : skipText? "\"".toList ('"' :: (body ++ '"' :: rest)) =
        some (body ++ '"' :: rest) := rfl
    unfold literal?
    dsimp only
    rw [after, hOpening, Option.bind_some, hQuoted]
    rfl
  have hBefore : before ('"' :: (body ++ '"' :: rest)) rest = '"' :: body ++ ['"'] := by
    have hChars : '"' :: (body ++ '"' :: rest) = ('"' :: body ++ ['"']) ++ rest := by simp
    rw [hChars, before_append]
  rw [leaf?, hLiteral]
  dsimp only
  rw [hBefore]

/-! ## Punctuation -/

/-- A punctuation character that opens neither a comment nor a lifetime. -/
structure IsPlainPunct (c : Char) : Prop where
  mem : c ∈ punctChars
  slash : c ≠ '/'
  quote : c ≠ '\''

theorem IsPlainPunct.punctChar? {c : Char} (h : IsPlainPunct c) (s : List Char) :
    punctChar? (c :: s) = some (c, s) := by
  have hLine : startsWith "//" (c :: s) = false := startsWith_eq_false rfl h.slash
  have hBlock : startsWith "/*" (c :: s) = false := startsWith_eq_false rfl h.slash
  simp [Lexer.punctChar?, hLine, hBlock, h.mem]

theorem Ends.punctChar? {s : List Char} (h : Ends s) : punctChar? s = none := by
  cases s with
  | nil => rfl
  | cons c s =>
    refine punctChar?_of_not_mem ?_ s
    rcases h c rfl with rfl | rfl | rfl <;> decide

theorem leaf?_punct {c : Char} (h : IsPlainPunct c) (s : List Char) :
    leaf? (c :: s) = some (.punct c (punctChar? s).isSome, s) := by
  have hApart := forall_punctChars
    (p := fun d => d ≠ '"' ∧ d.isDigit = false ∧ d ≠ 'r' ∧ d ≠ 'b' ∧ d ≠ 'c') (by decide) h.mem
  obtain ⟨hQuote, hDigit, hr, hb, hc⟩ := of_decide_eq_true hApart
  have hLiteral : literal? (c :: s) = none :=
    literal?_eq_none hQuote h.quote hDigit (fun hLetter => absurd hLetter hr) fun hLetter =>
      absurd hLetter (not_or.mpr ⟨hb, hc⟩)
  have hPunct : punct? (c :: s) = some (.punct c (punctChar? s).isSome, s) := by
    rw [punct?, h.punctChar?]
    split
    · rename_i hSame
      cases hSame
      exact absurd rfl h.quote
    · rename_i hSame
      cases hSame
      rfl
    · rename_i hSame
      cases hSame
  rw [leaf?, hLiteral, hPunct]

/-! ## Whole texts -/

/-- From these open groups and tokens on the characters are lexed to the tokens of the text. -/
def LexesTo (stack : List (Delimiter × Tokens)) (done : Tokens) (s : List Char) (result : Tokens) :
    Prop := ∀ fuel, s.length < fuel → trees? fuel stack done s = some result

section

variable {stack : List (Delimiter × Tokens)} {done result : Tokens} {s : List Char}

theorem lexesTo_nil : LexesTo [] done [] done.reverse := by
  intro fuel hFuel
  obtain ⟨fuel, rfl⟩ := Nat.exists_eq_add_one_of_ne_zero (Nat.ne_zero_of_lt hFuel)
  rfl

theorem LexesTo.blank (h : LexesTo stack done s result) : LexesTo stack done (' ' :: s) result := by
  intro fuel hFuel
  have hStep := h fuel (Nat.lt_of_succ_lt hFuel)
  obtain ⟨fuel, rfl⟩ := Nat.exists_eq_add_one_of_ne_zero (Nat.ne_zero_of_lt hFuel)
  have hSpace : isSpace ' ' = true := by decide
  have hSkip : skipSpace ((' ' :: s).length + 1) (' ' :: s) = skipSpace (s.length + 1) s := by
    rw [skipSpace_of_ne_slash (by decide), hSpace, if_pos rfl, List.length_cons]
  rw [trees?, hSkip]
  rw [trees?] at hStep
  exact hStep

/-- How a token begins, or a group ends. -/
structure BeginsToken (c : Char) : Prop where
  slash : c ≠ '/'
  space : isSpace c = false

theorem LexesTo.leaf {c : Char} {t : TokenTree} {rest : List Char} (hc : BeginsToken c)
    (hOpening : opening? c = none) (hClosing : closing? c = none)
    (hLeaf : leaf? (c :: s) = some (t, rest)) (hShorter : rest.length ≤ s.length)
    (h : LexesTo stack (t :: done) rest result) : LexesTo stack done (c :: s) result := by
  intro fuel hFuel
  obtain ⟨fuel, rfl⟩ := Nat.exists_eq_add_one_of_ne_zero (Nat.ne_zero_of_lt hFuel)
  rw [List.length_cons] at hFuel
  rw [trees?, skipSpace_cons hc.slash hc.space]
  simp only [docComment?_cons hc.slash, hOpening, hClosing, hLeaf]
  exact h fuel (by omega)

end

end Lexer

namespace Delimiter

def opening : Delimiter → Char
  | .parenthesis => '('
  | .brace => '\x7b'
  | .bracket => '['

def closing : Delimiter → Char
  | .parenthesis => ')'
  | .brace => '\x7d'
  | .bracket => ']'

end Delimiter

namespace Lexer

section

variable {stack : List (Delimiter × Tokens)} {done result : Tokens} {s : List Char}

theorem LexesTo.opening (d : Delimiter) (h : LexesTo ((d, done) :: stack) [] s result) :
    LexesTo stack done (d.opening :: s) result := by
  have hSlash : d.opening ≠ '/' := by cases d <;> decide
  have hSpace : isSpace d.opening = false := by cases d <;> decide
  have hOpening : opening? d.opening = some d := by cases d <;> rfl
  intro fuel hFuel
  obtain ⟨fuel, rfl⟩ := Nat.exists_eq_add_one_of_ne_zero (Nat.ne_zero_of_lt hFuel)
  rw [trees?, skipSpace_cons hSlash hSpace]
  simp only [docComment?_cons hSlash, hOpening]
  exact h fuel (Nat.lt_of_succ_lt_succ hFuel)

theorem LexesTo.closing {outer : Tokens} (d : Delimiter)
    (h : LexesTo stack (.group d done.reverse :: outer) s result) :
    LexesTo ((d, outer) :: stack) done (d.closing :: s) result := by
  have hSlash : d.closing ≠ '/' := by cases d <;> decide
  have hSpace : isSpace d.closing = false := by cases d <;> decide
  have hOpening : opening? d.closing = none := by cases d <;> rfl
  have hClosing : closing? d.closing = some d := by cases d <;> rfl
  intro fuel hFuel
  obtain ⟨fuel, rfl⟩ := Nat.exists_eq_add_one_of_ne_zero (Nat.ne_zero_of_lt hFuel)
  rw [trees?, skipSpace_cons hSlash hSpace]
  simp only [docComment?_cons hSlash, hOpening, hClosing, if_true]
  exact h fuel (Nat.lt_of_succ_lt_succ hFuel)

end

/-- Tokens that can be written: names, strings without escapes, plain punctuation and groups. -/
inductive Writable : Tokens → Prop
  | nil : Writable []
  | ident {name : String} {s : Tokens} (h : (Word.ident name).isToken = true) (more : Writable s) :
    Writable (.ident name :: s)
  | string {body : List Char} {s : Tokens} (h : ∀ c ∈ body, IsVerbatim c) (more : Writable s) :
    Writable (.literal (String.ofList ('"' :: body ++ ['"'])) :: s)
  | punct {c : Char} {s : Tokens} (h : IsPlainPunct c) (more : Writable s) :
    Writable (.punct c false :: s)
  | joint {c d : Char} {joint : Bool} {s : Tokens} (h : IsPlainPunct c) (hNext : IsPlainPunct d)
      (more : Writable (.punct d joint :: s)) : Writable (.punct c true :: .punct d joint :: s)
  | group (d : Delimiter) {body s : Tokens} (hBody : Writable body) (more : Writable s) :
    Writable (.group d body :: s)

def Separate : TokenTree → Prop
  | .punct _ true => False
  | _ => True

/-- Behind a token that is not joined there is a blank before the next one. -/
theorem listText_cons {t : TokenTree} (hGap : Separate t) (ts : Tokens) {rest : List Char}
    (hRest : Ends rest) :
    ∃ behind, (TokenTree.listText (t :: ts)).toList ++ rest = t.text.toList ++ behind ∧
      Ends behind ∧ ∀ {stack done result},
        LexesTo stack done ((TokenTree.listText ts).toList ++ rest) result →
          LexesTo stack done behind result := by
  cases ts with
  | nil => exact ⟨rest, by rw [TokenTree.listText], hRest, fun h => h⟩
  | cons u ts =>
    refine ⟨' ' :: ((TokenTree.listText (u :: ts)).toList ++ rest), ?_, ends_blank _, .blank⟩
    have hText : TokenTree.listText (t :: u :: ts) =
        t.text ++ " " ++ TokenTree.listText (u :: ts) := by
      rw [TokenTree.listText]
      · simp
      · rintro c rfl
        exact hGap
    rw [hText]
    simp

section

variable {stack : List (Delimiter × Tokens)} {done result : Tokens} {s : List Char}

theorem LexesTo.name {name : String} (hToken : (Word.ident name).isToken = true) (hs : Ends s)
    (h : LexesTo stack (.ident name :: done) s result) :
    LexesTo stack done ((TokenTree.ident name).text.toList ++ s) result := by
  have hLeaf := leaf?_name hToken hs
  have hBare := isBareChar_of_isToken hToken
  rw [TokenTree.text]
  cases hChars : name.toList with
  | nil =>
    have hNone := Code.toList_ne_nil_of_isToken hToken
    exact absurd hChars hNone
  | cons c chars =>
    rw [hChars] at hLeaf hBare
    have hc := hBare c List.mem_cons_self
    have hBegins : BeginsToken c := ⟨hc.ne (by decide) (by decide) (by decide), hc.isSpace⟩
    obtain ⟨hOpening, hClosing⟩ := bracket?_bare hc
    rw [List.cons_append] at hLeaf ⊢
    refine .leaf hBegins hOpening hClosing hLeaf ?_ h
    rw [List.length_append]
    omega

theorem LexesTo.string {body : List Char} (hBody : ∀ c ∈ body, IsVerbatim c) (hs : Ends s)
    (h : LexesTo stack (.literal (String.ofList ('"' :: body ++ ['"'])) :: done) s result) :
    LexesTo stack done
      ((TokenTree.literal (String.ofList ('"' :: body ++ ['"']))).text.toList ++ s) result := by
  have hChars : (TokenTree.literal (String.ofList ('"' :: body ++ ['"']))).text.toList ++ s =
      '"' :: (body ++ '"' :: s) := by
    simp [TokenTree.text]
  rw [hChars]
  refine .leaf ⟨by decide, by decide⟩ rfl rfl (leaf?_string hBody hs) ?_ h
  simp only [List.length_append, List.length_cons]
  omega

theorem LexesTo.punct {c : Char} (hc : IsPlainPunct c)
    (h : LexesTo stack (.punct c (punctChar? s).isSome :: done) s result) :
    LexesTo stack done (c :: s) result := by
  have hPlain := forall_punctChars
    (p := fun d => isSpace d = false ∧ opening? d = none ∧ closing? d = none) (by decide) hc.mem
  obtain ⟨hSpace, hOpening, hClosing⟩ := of_decide_eq_true hPlain
  exact .leaf ⟨hc.slash, hSpace⟩ hOpening hClosing (leaf?_punct hc s) le_rfl h

theorem LexesTo.group (d : Delimiter) {body : Tokens}
    (hBody : ∀ {stack done rest}, Ends rest → LexesTo stack (body.reverse ++ done) rest result →
      LexesTo stack done ((TokenTree.listText body).toList ++ rest) result)
    (h : LexesTo stack (.group d body :: done) s result) :
    LexesTo stack done ((TokenTree.group d body).text.toList ++ s) result := by
  have hClosed : LexesTo ((d, done) :: stack) (body.reverse ++ []) (d.closing :: s) result := by
    refine .closing d ?_
    rwa [List.append_nil, List.reverse_reverse]
  cases d with
  | parenthesis =>
    have hInner := hBody (by simp [Ends, Delimiter.closing]) hClosed
    simpa [TokenTree.text, Delimiter.opening, Delimiter.closing] using hInner.opening .parenthesis
  | bracket =>
    have hInner := hBody (by simp [Ends, Delimiter.closing]) hClosed
    simpa [TokenTree.text, Delimiter.opening, Delimiter.closing] using hInner.opening .bracket
  | brace =>
    -- Braces have a blank inside on either side, and a single one if they are empty.
    cases body with
    | nil =>
      simpa [TokenTree.text, TokenTree.listText, Delimiter.opening, Delimiter.closing] using
        hClosed.blank.opening .brace
    | cons t body =>
      have hInner := hBody (ends_blank _) hClosed.blank
      simpa [TokenTree.text, Delimiter.opening, Delimiter.closing] using
        hInner.blank.opening .brace

end

/-- The text of writable tokens is lexed to them, whatever follows it that ends its last token. -/
theorem Writable.lexesTo {ts : Tokens} (h : Writable ts) {stack : List (Delimiter × Tokens)}
    {done result : Tokens} {rest : List Char} (hRest : Ends rest)
    (hNext : LexesTo stack (ts.reverse ++ done) rest result) :
    LexesTo stack done ((TokenTree.listText ts).toList ++ rest) result := by
  induction h generalizing stack done rest with
  | nil => simpa [TokenTree.listText] using hNext
  | @ident name s hToken more ih =>
    obtain ⟨behind, hText, hEnds, hBehind⟩ := listText_cons (t := .ident name) trivial s hRest
    rw [hText]
    exact .name hToken hEnds (hBehind (ih hRest (by simpa using hNext)))
  | @string body s hBody more ih =>
    obtain ⟨behind, hText, hEnds, hBehind⟩ :=
      listText_cons (t := .literal (String.ofList ('"' :: body ++ ['"']))) trivial s hRest
    rw [hText]
    exact .string hBody hEnds (hBehind (ih hRest (by simpa using hNext)))
  | @punct c s hPunct more ih =>
    obtain ⟨behind, hText, hEnds, hBehind⟩ := listText_cons (t := .punct c false) trivial s hRest
    rw [hText, TokenTree.text, String.toList_singleton, List.singleton_append]
    refine .punct hPunct ?_
    rw [hEnds.punctChar?]
    exact hBehind (ih hRest (by simpa using hNext))
  | @joint c d joint s hPunct hNextPunct more ih =>
    have hText : (TokenTree.listText (.punct c true :: .punct d joint :: s)).toList ++ rest =
        c :: ((TokenTree.listText (.punct d joint :: s)).toList ++ rest) := by
      simp [TokenTree.listText, TokenTree.text]
    obtain ⟨chars, hChars⟩ : ∃ chars,
        (TokenTree.listText (.punct d joint :: s)).toList ++ rest = d :: chars := by
      cases s <;> simp [TokenTree.listText, TokenTree.text]
    rw [hText]
    refine .punct hPunct ?_
    rw [hChars, hNextPunct.punctChar?, ← hChars]
    exact ih hRest (by simpa using hNext)
  | @group d body s hBody more ihBody ih =>
    obtain ⟨behind, hText, _, hBehind⟩ := listText_cons (t := .group d body) trivial s hRest
    rw [hText]
    exact .group d ihBody (hBehind (ih hRest (by simpa using hNext)))

theorem head?_ne_hash {name : String} (hToken : (Word.ident name).isToken = true) :
    name.toList.head? ≠ some '#' := by
  cases hRaw : Naming.isRaw name with
  | true =>
    obtain ⟨raw, hName⟩ := Code.isRaw_eq_true_iff.mp hRaw
    simp [hName]
  | false =>
    rw [Code.isToken_of_not_raw hRaw] at hToken
    intro hHash
    exact ne_of_isIdentContinue (d := '#')
      (Code.forall_isIdentContinue hToken '#' (List.mem_of_head? hHash)) (by decide) rfl

/-- A file of writable tokens that starts with a name. -/
theorem Writable.lexFile? {name : String} {ts : Tokens} (h : Writable (.ident name :: ts)) :
    lexFile? (TokenTree.listText (.ident name :: ts)) = some (.ident name :: ts) := by
  have hEnd : LexesTo [] ((.ident name :: ts).reverse ++ []) [] (.ident name :: ts) := by
    have hDone := @lexesTo_nil (.ident name :: ts).reverse
    rwa [List.reverse_reverse, ← List.append_nil (.ident name :: ts).reverse] at hDone
  have hLexes := h.lexesTo ends_nil hEnd
  rw [List.append_nil] at hLexes
  have hToken : (Word.ident name).isToken = true := by
    cases h with
    | ident hToken => exact hToken
  obtain ⟨behind, hText, _⟩ := listText_cons (t := .ident name) trivial ts ends_nil
  rw [List.append_nil, TokenTree.text] at hText
  have hHash := head?_ne_hash hToken
  have hBare := isBareChar_of_isToken hToken
  cases hChars : name.toList with
  | nil => exact absurd hChars (Code.toList_ne_nil_of_isToken hToken)
  | cons c chars =>
    rw [hChars] at hText hHash hBare
    have hMark : c.toNat ≠ 0xFEFF :=
      (hBare c List.mem_cons_self).toNat_ne (by decide) (by decide) (by decide +kernel)
    have hNotHash : c ≠ '#' := fun hSame => hHash (congrArg some hSame)
    have hNoLine : startsWith "#!" (c :: (chars ++ behind)) = false :=
      startsWith_eq_false rfl hNotHash
    rw [List.cons_append] at hText
    rw [hText] at hLexes
    rw [Lexer.lexFile?, hText, dropMark, if_neg hMark, dropInterpreterLine, hNoLine,
      if_neg Bool.false_ne_true, lexChars?, dropMark, if_neg hMark]
    exact hLexes _ (Nat.lt_succ_self _)

end Lexer
end TraitClient.Source
