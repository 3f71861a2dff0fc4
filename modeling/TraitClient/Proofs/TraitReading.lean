import TraitClient.Proofs.ItemReading

/-!
# Reading traits and imports

The tokens of imports and of traits with functions are read as the items that later stages look at.
-/
namespace TraitClient.Source.Parser

open Code (IsSegment)

variable {g : Grammar}

/-! ## Imports -/

/-- The tokens of the path above a use tree. -/
def abovePath (space : List String) : Tokens :=
  space.flatMap fun name => .ident name :: Tokens.operator "::"

def belowPath (space : List String) (tree : UseTree) : UseTree := space.foldr .path tree

theorem peekSegment {name : String} (h : IsSegment name) (s : Tokens) :
    (peekIdent (.ident name :: s) || peekPathWord (.ident name :: s) ||
      peekWord "try" (.ident name :: s)) = true := by
  rcases h.word with hPlain | hWord
  · simp [peekIdent, hPlain]
  · simp only [Code.pathWords, List.mem_cons, List.not_mem_nil, or_false] at hWord
    rcases hWord with rfl | rfl | rfl | rfl | rfl <;> rfl

theorem reads_useTree {space : List String} (hSpace : ∀ name ∈ space, IsSegment name) {depth : Nat}
    {s t : Tokens} {tree : UseTree} (h : Reads (useTree false depth) s (some tree) t) :
    Reads (useTree false (space.length + depth)) (abovePath space ++ s) (some (belowPath space tree))
      t := by
  induction space with
  | nil => simpa [abovePath, belowPath] using h
  | cons name space ih =>
    obtain ⟨hName, hRest⟩ := List.forall_mem_cons.mp hSpace
    have hTokens : abovePath (name :: space) ++ s =
        .ident name :: (Tokens.operator "::" ++ (abovePath space ++ s)) := by
      simp [abovePath]
    rw [hTokens, List.length_cons, Nat.add_right_comm, useTree]
    refine (reads_rest _).bind ?_
    rw [if_pos (peekSegment hName _)]
    refine (reads_anyIdent name _).bind ((reads_sees _ _).bind ?_)
    rw [peekOp_operator, if_pos rfl]
    exact (reads_op "::" _).bind ((ih hRest).bind (reads_pure _ t))

theorem reads_useItem {s t : Tokens} {tree : UseTree}
    (h : ∀ depth, TokenTree.listSize s < depth →
      Reads (useTree false depth) s (some tree) (Tokens.operator ";" ++ t)) :
    Reads (itemStep g) (.ident "use" :: (Tokens.operator "::" ++ s)) (.use true tree) t := by
  have hUse : Reads useItem (.ident "use" :: (Tokens.operator "::" ++ s)) (.use true tree) t := by
    refine (reads_word "use" _).bind ((reads_opIf "::" s).bind ((reads_rest s).bind ?_))
    exact (h _ (Nat.lt_succ_self _)).bind ((reads_op ";" t).bind (reads_pure _ t))
  refine (reads_noAttributes rfl).bind ((reads_noVisibility rfl).bind ((reads_rest _).bind ?_))
  exact hUse

/-! ## Functions -/

theorem reads_shortSignature {name : String} (hName : isPlainName name = true) {body : Tokens}
    {ps : List FunctionParameter} (h : Reads (parameters g) body ps []) (t : Tokens) :
    Reads (signature g false)
      (.ident "fn" :: .ident name :: .group .parenthesis body :: (Tokens.operator ";" ++ t))
      { name, isAsync := false, hasGenerics := false, parameters := ps, output := none }
      (Tokens.operator ";" ++ t) := by
  refine (reads_wordIf_false rfl).takes.skip.bind ((reads_wordIf_false rfl).bind ?_)
  refine (reads_wordIf_false rfl).bind ((reads_sees _ _).bind ?_)
  refine (reads_word "fn" _).bind ((reads_ident hName _).bind ?_)
  refine (reads_noGenerics (by simp [peekOp])).bind ((reads_group .parenthesis h _).bind ?_)
  refine (reads_ifSees_none rfl).bind ?_
  exact (reads_noWhere rfl).bind (reads_pure _ _)

theorem reads_traitMember {contents : List Tokens} {attributes : List Attribute}
    (hAttributes : List.Forall₂ (fun content found => Reads (attributeContent g) content found [])
      contents attributes) {name : String} (hName : isPlainName name = true) {body : Tokens}
    {ps : List FunctionParameter} (h : Reads (parameters g) body ps []) (t : Tokens) :
    Reads (traitMember g) (contents.flatMap Code.attributeTokens ++
      .ident "fn" :: .ident name :: .group .parenthesis body :: (Tokens.operator ";" ++ t))
      (some ⟨attributes, name, false, false, ps, none, false⟩) t := by
  refine (reads_outerAttributes hAttributes rfl).bind ((reads_noVisibility rfl).bind ?_)
  refine (reads_wordIf_false rfl).bind ((reads_rest _).bind ?_)
  refine (reads_shortSignature hName h t).bind (Reads.bind (a := false) ?_ (reads_pure _ t))
  refine (reads_sees _ _).bind ?_
  rw [peekOp_operator, if_pos rfl]
  exact (reads_op ";" t).bind (reads_pure false t)

/-! ## Traits -/

theorem reads_traitBody {body : Tokens} {members : List (Option TraitFunction)}
    (hInner : NoInnerAttributes body) (h : Reads (toEnd (traitMember g)) body members [])
    (attributes : List Attribute) (name : String) (t : Tokens) :
    Reads (traitBody g attributes .everywhere name false) (.group .brace body :: t)
      (.trait ⟨attributes, true, name, false, [], members.filterMap id⟩) t := by
  have hContent : Reads (do
      innerAttributes g
      toEnd (traitMember g)) body members [] := (reads_noInnerAttributes hInner).bind h
  refine (reads_opIf_false (by simp [peekOp])).bind ((reads_pure [] _).bind ?_)
  exact (reads_noWhere rfl).bind ((reads_group .brace hContent t).bind (reads_pure _ t))

theorem reads_traitItem {contents : List Tokens} {attributes : List Attribute}
    (hAttributes : List.Forall₂ (fun content found => Reads (attributeContent g) content found [])
      contents attributes) {name : String} (hName : isPlainName name = true) {body : Tokens}
    {members : List (Option TraitFunction)} (hInner : NoInnerAttributes body)
    (h : Reads (toEnd (traitMember g)) body members []) (t : Tokens) :
    Reads (itemStep g) (contents.flatMap Code.attributeTokens ++
      .ident "pub" :: .ident "trait" :: .ident name :: .group .brace body :: t)
      (.trait ⟨attributes, true, name, false, [], members.filterMap id⟩) t := by
  have hPublic : Reads visibility
      (.ident "pub" :: .ident "trait" :: .ident name :: .group .brace body :: t) .everywhere
      (.ident "trait" :: .ident name :: .group .brace body :: t) := by
    have hNone : restriction (.ident "trait" :: .ident name :: .group .brace body :: t) = none :=
      rfl
    exact (reads_wordIf "pub" _).bind
      (reads_or_right (bind_eq_none_of_left _ hNone) (reads_pure _ _))
  have hTrait : Reads (traitItem g attributes .everywhere)
      (.ident "trait" :: .ident name :: .group .brace body :: t)
      (.trait ⟨attributes, true, name, false, [], members.filterMap id⟩) t := by
    refine (reads_sees _ _).bind ((reads_wordIf_false rfl).takes.skip.bind ?_)
    refine (reads_wordIf_false rfl).takes.skip.bind ((reads_word "trait" _).bind ?_)
    refine (reads_ident hName _).bind ((reads_noGenerics (by simp [peekOp])).bind ?_)
    refine (reads_sees _ _).bind ?_
    rw [show peekOp "=" (.group .brace body :: t) = false by simp [peekOp], Bool.and_false,
      if_neg Bool.false_ne_true]
    exact reads_traitBody hInner h attributes name t
  refine (reads_outerAttributes hAttributes rfl).bind (hPublic.bind ((reads_rest _).bind ?_))
  exact hTrait

end TraitClient.Source.Parser
