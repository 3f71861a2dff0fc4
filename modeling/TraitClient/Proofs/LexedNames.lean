import TraitClient.Proofs.Identifiers
import TraitClient.Source.Lexer

/-!
# Names in tokens

Every identifier among the tokens of a text can be a token of generated code: it is made of
identifier characters, or it is raw and has a raw form.
-/
namespace TraitClient.Source

open Code (Word)

/-- The identifiers among the tokens can be written in code, those inside groups included. -/
inductive TokenTree.Named : TokenTree → Prop
  | ident {name : String} (h : (Word.ident name).isToken = true) : Named (.ident name)
  | punct (c : Char) (joint : Bool) : Named (.punct c joint)
  | literal (text : String) : Named (.literal text)
  | group {d : Delimiter} {body : Tokens} (h : ∀ t ∈ body, t.Named) : Named (.group d body)

def AllNamed (s : Tokens) : Prop := ∀ t ∈ s, t.Named

theorem allNamed_nil : AllNamed [] := fun _ h => absurd h List.not_mem_nil

theorem allNamed_cons {t : TokenTree} {s : Tokens} : AllNamed (t :: s) ↔ t.Named ∧ AllNamed s :=
  List.forall_mem_cons

theorem AllNamed.tail {t : TokenTree} {s : Tokens} (h : AllNamed (t :: s)) : AllNamed s :=
  (allNamed_cons.mp h).2

theorem AllNamed.isToken {name : String} {s : Tokens} (h : AllNamed (.ident name :: s)) :
    (Word.ident name).isToken = true := by
  cases h _ List.mem_cons_self with
  | ident h => exact h

theorem AllNamed.body {d : Delimiter} {body s : Tokens} (h : AllNamed (.group d body :: s)) :
    AllNamed body := by
  cases h _ List.mem_cons_self with
  | group h => exact h

namespace Lexer

open Text

theorem before_append (name rest : List Char) : before (name ++ rest) rest = name := by
  simp [before]

theorem identBody?_eq_some {s rest : List Char} (h : identBody? s = some rest) :
    ∃ name, s = name ++ rest ∧ isIdentText name = true := by
  cases s with
  | nil => cases h
  | cons c s =>
    rw [identBody?] at h
    split at h
    · rename_i hStart
      cases h
      refine ⟨c :: s.takeWhile isIdentContinue, ?_, ?_⟩
      · rw [List.cons_append, List.takeWhile_append_dropWhile]
      · rw [isIdentText, hStart, Bool.true_and, List.all_eq_true]
        exact fun d hd => List.mem_takeWhile_imp hd
    · cases h

theorem startsWith_raw {s : List Char} (h : startsWith "r#" s = true) :
    ∃ body, s = 'r' :: '#' :: body := by
  rcases s with _ | ⟨c, _ | ⟨d, body⟩⟩
  · cases h
  · simp [startsWith, skipText?] at h
  · simp only [startsWith, show "r#".toList = ['r', '#'] from rfl, skipText?] at h
    split at h
    · rename_i hFirst
      split at h
      · rename_i hSecond
        exact ⟨body, by rw [hFirst, hSecond]⟩
      · cases h
    · cases h

theorem identAny?_eq_some {s rest : List Char} (h : identAny? s = some rest) :
    ∃ name, s = name ++ rest ∧ (Word.ident (String.ofList name)).isToken = true := by
  unfold identAny? at h
  split at h
  · rename_i hRaw
    obtain ⟨body, rfl⟩ := startsWith_raw hRaw
    dsimp only [List.drop] at h
    cases hBody : identBody? body with
    | none =>
      rw [hBody] at h
      cases h
    | some end_ =>
      rw [hBody] at h
      obtain ⟨name, rfl, hText⟩ := identBody?_eq_some hBody
      dsimp only at h
      rw [before_append] at h
      split at h
      · cases h
      · rename_i hRawable
        cases h
        refine ⟨'r' :: '#' :: name, rfl, ?_⟩
        have hChars : (String.ofList ('r' :: '#' :: name)).toList = 'r' :: '#' :: name :=
          String.toList_ofList
        rw [Code.isToken_of_raw hChars, hText, Bool.true_and, Bool.not_eq_true']
        exact Bool.eq_false_iff.mpr hRawable
  · obtain ⟨name, rfl, hText⟩ := identBody?_eq_some h
    refine ⟨name, rfl, Code.isToken_of_isIdentText ?_⟩
    rwa [String.toList_ofList]

theorem punct?_named {s rest : List Char} {t : TokenTree} (h : punct? s = some (t, rest)) :
    t.Named := by
  unfold punct? at h
  split at h
  · split at h
    · cases h
    · split at h
      · cases h
        exact .punct _ _
      · cases h
    · cases h
      exact .punct _ _
    · cases h
  · cases h
    exact .punct _ _
  · cases h

theorem leaf?_named {s rest : List Char} {t : TokenTree} (h : leaf? s = some (t, rest)) : t.Named := by
  unfold leaf? at h
  cases hLiteral : literal? s with
  | some end_ =>
    rw [hLiteral] at h
    cases h
    exact .literal _
  | none =>
    rw [hLiteral] at h
    cases hPunct : punct? s with
    | some found =>
      rw [hPunct] at h
      obtain rfl := Option.some.inj h
      exact punct?_named hPunct
    | none =>
      rw [hPunct] at h
      obtain ⟨end_, hIdent, hFound⟩ := Option.map_eq_some_iff.mp h
      cases hFound
      unfold ident? at hIdent
      split at hIdent
      · cases hIdent
      · obtain ⟨name, rfl, hToken⟩ := identAny?_eq_some hIdent
        rw [before_append]
        exact .ident hToken

theorem allNamed_docAttribute (text : List Char) (inner : Bool) : AllNamed (docAttribute text inner) := by
  have hDoc : (TokenTree.ident "doc").Named := .ident (by decide)
  have hContent : AllNamed [.ident "doc", .punct '=' false, .literal (Literal.quote (String.ofList text))] :=
    allNamed_cons.mpr ⟨hDoc, allNamed_cons.mpr ⟨.punct _ _, allNamed_cons.mpr ⟨.literal _, allNamed_nil⟩⟩⟩
  have hGroup : AllNamed [.group .bracket
      [.ident "doc", .punct '=' false, .literal (Literal.quote (String.ofList text))]] :=
    allNamed_cons.mpr ⟨.group hContent, allNamed_nil⟩
  cases inner with
  | false => exact allNamed_cons.mpr ⟨.punct _ _, hGroup⟩
  | true => exact allNamed_cons.mpr ⟨.punct _ _, allNamed_cons.mpr ⟨.punct _ _, hGroup⟩⟩

/-- The open groups hold named tokens at every step, and so does the result. -/
theorem trees?_named {fuel : Nat} {stack : List (Delimiter × Tokens)} {done : Tokens} {s : List Char}
    {result : Tokens} (hStack : ∀ group ∈ stack, AllNamed group.2) (hDone : AllNamed done)
    (h : trees? fuel stack done s = some result) : AllNamed result := by
  induction fuel generalizing stack done s with
  | zero => cases h
  | succ fuel ih =>
    have hReverse {tokens : Tokens} (hTokens : AllNamed tokens) : AllNamed tokens.reverse :=
      fun t ht => hTokens t (List.mem_reverse.mp ht)
    rw [trees?] at h
    split at h
    · exact ih hStack (List.forall_mem_append.mpr ⟨hReverse (allNamed_docAttribute _ _), hDone⟩) h
    · split at h
      · split at h
        · cases h
          exact hReverse hDone
        · cases h
      · split at h
        · exact ih (List.forall_mem_cons.mpr ⟨hDone, hStack⟩) allNamed_nil h
        · split at h
          · split at h
            · split at h
              · obtain ⟨hOuter, hStack⟩ := List.forall_mem_cons.mp hStack
                exact ih hStack (allNamed_cons.mpr ⟨.group (hReverse hDone), hOuter⟩) h
              · cases h
            · cases h
          · split at h
            · rename_i hLeaf
              exact ih hStack (allNamed_cons.mpr ⟨leaf?_named hLeaf, hDone⟩) h
            · cases h

theorem lex?_named {text : String} {s : Tokens} (h : lex? text = some s) : AllNamed s :=
  trees?_named (by simp) allNamed_nil h

theorem lexFile?_named {text : String} {s : Tokens} (h : lexFile? text = some s) : AllNamed s :=
  trees?_named (by simp) allNamed_nil h

end Lexer
end TraitClient.Source
