import TraitClient.Proofs.TokenText
import TraitClient.Proofs.TraitReading

/-!
# Files with a form

For any two paths there is a file of one service: its attributes are imported from below the first
path, and the only method takes a form from below the second.  The file is parsed from the text of its
tokens.
-/
namespace TraitClient

open Code (IsSegment)
open Source (Tokens TokenTree Grammar TypeExpr Item)
open Source.Parser

/-! ## Items -/

def formName (runtime : List String) : List String := runtime ++ ["reqwest", "multipart", "Form"]

theorem multipartForm_segments : ∀ s ∈ ["reqwest", "multipart", "Form"], IsSegment s := by
  have hNames : ∀ s ∈ ["reqwest", "multipart", "Form"], Source.isSegment s = true := by decide
  exact fun s hs => Source.isSegment_iff.mp (hNames s hs)

theorem formName_segments {runtime : List String} (h : ∀ s ∈ runtime, IsSegment s) :
    ∀ s ∈ formName runtime, IsSegment s :=
  List.forall_mem_append.mpr ⟨h, multipartForm_segments⟩

/-- The type of a form as it is written. -/
def formExpr (runtime : List String) (tokens : Tokens) : TypeExpr :=
  .path tokens true ((formName runtime).map bareSegment)

/-- An attribute that is written with an imported name. -/
def imported (name : String) (arguments : Source.AttributeArguments) : Source.Attribute :=
  ⟨⟨false, [name]⟩, arguments⟩

/-- A method with a form in its body and a fault that comes after all others. -/
def formFunction (form : TypeExpr) : Source.TraitFunction where
  attributes := [imported "post" (.list [.literal "\"/\""]), imported "multipart" .none]
  name := "send"
  isAsync := false
  hasGenerics := false
  parameters := [.typed [imported "body" .none] (some "form") form]
  output := none
  hasBody := false

def formService (form : TypeExpr) : Source.TraitDeclaration where
  attributes := [imported "api_service" .none]
  isPublic := true
  name := "Api"
  hasGenerics := false
  supertraits := []
  functions := [formFunction form]

def importedNames : List String := ["api_service", "post", "multipart", "body"]

def formItems (space : List String) (form : TypeExpr) : List Item :=
  [.use true (belowPath space (.group (importedNames.map .name))), .trait (formService form)]

def formFile (space : List String) (form : TypeExpr) : SourceFile :=
  ⟨"src/api.rs", ["api"], formItems space form⟩

theorem leaves_belowPath (path space : List String) (tree : Source.UseTree) :
    Imports.leaves path (belowPath space tree) = Imports.leaves (path ++ space) tree := by
  induction space generalizing path with
  | nil => rw [List.append_nil]; rfl
  | cons name space ih =>
    have hBelow := ih (path ++ [name])
    rw [List.append_assoc, List.singleton_append] at hBelow
    rw [belowPath, List.foldr_cons, Imports.leaves]
    exact hBelow

theorem formItems_target? (space : List String) (form : TypeExpr) :
    ∀ name ∈ importedNames,
      (Imports.ofItems (formItems space form)).target? name = some (space ++ [name]) := by
  have hLeaves : (formItems space form).flatMap Imports.leavesOf =
      importedNames.map fun name => .binding name (space ++ [name]) := by
    simp only [formItems, List.flatMap_cons, List.flatMap_nil, Imports.leavesOf, leaves_belowPath]
    rfl
  have hImports : Imports.ofItems (formItems space form) =
      (importedNames.map fun name => .binding name (space ++ [name])).foldl Imports.add .empty := by
    rw [Imports.ofItems_eq, hLeaves]
  intro name hName
  simp only [importedNames, List.mem_cons, List.not_mem_nil, or_false] at hName
  rw [hImports]
  rcases hName with rfl | rfl | rfl | rfl <;> rfl

/-! ## Tokens -/

def bodyParameter (runtime : List String) : Tokens :=
  [[.ident "body"]].flatMap Code.attributeTokens ++ typed "form" (pathStart true (formName runtime))

def sendFunction (runtime : List String) : Tokens :=
  [[.ident "post", .group .parenthesis [.literal "\"/\""]], [.ident "multipart"]].flatMap
      Code.attributeTokens ++
    .ident "fn" :: .ident "send" :: .group .parenthesis (bodyParameter runtime) ::
      (Tokens.operator ";" ++ [])

def apiTrait (runtime : List String) : Tokens :=
  [[.ident "api_service"]].flatMap Code.attributeTokens ++
    .ident "pub" :: .ident "trait" :: .ident "Api" :: [.group .brace (sendFunction runtime)]

def importTokens (space : List String) : Tokens :=
  abovePath space ++
    [.group .brace (Code.commaSeparated (importedNames.map fun name => [.ident name]))]

def formTokens (space runtime : List String) : Tokens :=
  .ident "use" :: (Tokens.operator "::" ++
    (importTokens space ++ (Tokens.operator ";" ++ apiTrait runtime)))

/-! ## Reading the tokens -/

section

variable {g : Grammar} {space runtime : List String}

theorem readsType_formName (hRuntime : ∀ s ∈ runtime, IsSegment s) :
    ReadsType (Grammar.step g) true (pathStart true (formName runtime)) fun e =>
      ∃ tokens, e = formExpr runtime tokens := by
  have hName : formName runtime = (runtime ++ ["reqwest", "multipart"]) ++ ["Form"] := by
    simp [formName]
  have hSegments := formName_segments hRuntime
  rw [hName] at hSegments ⊢
  refine (readsType_bare hSegments (.inl rfl) true).imp fun e hPath => ?_
  obtain ⟨tokens, rfl⟩ := hPath
  exact ⟨tokens, by simp [formExpr, hName, bareSegment]⟩

theorem reads_bodyParameter (hRuntime : ∀ s ∈ runtime, IsSegment s) :
    ∃ tokens, Reads (parameters (Grammar.step g)) (bodyParameter runtime)
      [.typed [imported "body" .none] (some "form") (formExpr runtime tokens)] [] := by
  obtain ⟨_, ⟨tokens, rfl⟩, hParameter⟩ := reads_typedParameter (show Source.isPlainName "form" = true
    by decide) (readsType_formName hRuntime) (.inl rfl) [imported "body" .none]
  rw [List.append_nil] at hParameter
  have hContent : Reads (attributeContent (Grammar.step g)) [.ident "body"] (imported "body" .none)
      [] := ⟨_, rfl⟩
  have hAttributes : Reads (outerAttributes (Grammar.step g)) (bodyParameter runtime)
      [imported "body" .none] (typed "form" (pathStart true (formName runtime))) :=
    reads_outerAttributes (.cons hContent .nil) rfl
  have hNoDots : Source.peekOp "..." (typed "form" (pathStart true (formName runtime))) = false :=
    rfl
  have hGo (fuel : Nat) : Reads (parameters.go (Grammar.step g) true (fuel + 1))
      (bodyParameter runtime)
      [.typed [imported "body" .none] (some "form") (formExpr runtime tokens)] [] := by
    rw [parameters.go]
    refine (reads_sees _ _).bind ?_
    rw [show Source.peekEnd (bodyParameter runtime) = false from rfl, if_neg Bool.false_ne_true]
    refine hAttributes.bind ((reads_opIf_false hNoDots).bind ?_)
    rw [if_neg Bool.false_ne_true]
    refine hParameter.bind ((reads_guard rfl _).bind ((reads_sees _ _).bind ?_))
    exact reads_pure _ _
  exact ⟨tokens, reads_parameters_of_go (hGo (bodyParameter runtime).length)⟩

theorem length_le_abovePath (space : List String) :
    space.length ≤ TokenTree.listSize (abovePath space) := by
  induction space with
  | nil => exact Nat.zero_le _
  | cons name space ih =>
    have hTokens : abovePath (name :: space) =
        .ident name :: (Tokens.operator "::" ++ abovePath space) := by
      simp [abovePath]
    rw [hTokens, List.length_cons]
    simp only [TokenTree.listSize, TokenTree.listSize_append, TokenTree.size]
    omega

theorem reads_use (hSpace : ∀ s ∈ space, IsSegment s) (t : Tokens) :
    Reads (itemStep g) (.ident "use" :: (Tokens.operator "::" ++
        (importTokens space ++ (Tokens.operator ";" ++ t))))
      (.use true (belowPath space (.group (importedNames.map .name)))) t := by
  refine reads_useItem fun depth hDepth => ?_
  have hGroup (depth : Nat) : Reads (useTree false (depth + 2))
      (.group .brace (Code.commaSeparated (importedNames.map fun name => [.ident name])) ::
        (Tokens.operator ";" ++ t))
      (some (.group (importedNames.map .name))) (Tokens.operator ";" ++ t) := ⟨_, rfl⟩
  have hLength := length_le_abovePath space
  rw [importTokens, TokenTree.listSize_append, TokenTree.listSize_append, TokenTree.listSize,
    TokenTree.size] at hDepth
  obtain ⟨depth, rfl⟩ := Nat.exists_eq_add_of_le (show space.length + 2 ≤ depth by omega)
  rw [importTokens, List.append_assoc, List.singleton_append, Nat.add_assoc, Nat.add_comm 2]
  exact reads_useTree hSpace (hGroup depth)

theorem reads_sendFunction (hRuntime : ∀ s ∈ runtime, IsSegment s) :
    ∃ tokens, Reads (toEnd (traitMember (Grammar.step g))) (sendFunction runtime)
      [some (formFunction (formExpr runtime tokens))] [] := by
  obtain ⟨tokens, hParameters⟩ := reads_bodyParameter (g := g) hRuntime
  have hPost : Reads (attributeContent (Grammar.step g))
      [.ident "post", .group .parenthesis [.literal "\"/\""]]
      (imported "post" (.list [.literal "\"/\""])) [] := ⟨_, rfl⟩
  have hMultipart : Reads (attributeContent (Grammar.step g)) [.ident "multipart"]
      (imported "multipart" .none) [] := ⟨_, rfl⟩
  have hMember := reads_traitMember (.cons hPost (.cons hMultipart .nil))
    (show Source.isPlainName "send" = true by decide) hParameters []
  refine ⟨tokens, Repeats.reads (.sees rfl hMember ?_ (.stops rfl))⟩
  simp [sendFunction]

theorem reads_apiTrait (hRuntime : ∀ s ∈ runtime, IsSegment s) :
    ∃ tokens, Reads (itemStep (Grammar.step g)) (apiTrait runtime)
      (.trait (formService (formExpr runtime tokens))) [] := by
  obtain ⟨tokens, hMembers⟩ := reads_sendFunction (g := g) hRuntime
  have hService : Reads (attributeContent (Grammar.step g)) [.ident "api_service"]
      (imported "api_service" .none) [] := ⟨_, rfl⟩
  have hInner : NoInnerAttributes (sendFunction runtime) := noInnerAttributes_attributes rfl
  exact ⟨tokens, reads_traitItem (.cons hService .nil) (by decide) hInner hMembers []⟩

theorem parseItems?_formTokens (hSpace : ∀ s ∈ space, IsSegment s)
    (hRuntime : ∀ s ∈ runtime, IsSegment s) :
    ∃ tokens, Source.parseItems? (formTokens space runtime) =
      some (formItems space (formExpr runtime tokens)) := by
  obtain ⟨tokens, hTrait⟩ := reads_apiTrait
    (g := Grammar.ofDepth (6 * TokenTree.listSize (formTokens space runtime) + 10)) hRuntime
  have hUse := reads_use (g := Grammar.ofDepth
    (6 * TokenTree.listSize (formTokens space runtime) + 11)) hSpace (apiTrait runtime)
  have hItems : Reads (toEnd (Grammar.ofTokens (formTokens space runtime)).item)
      (formTokens space runtime) (formItems space (formExpr runtime tokens)) [] := by
    refine Repeats.reads (.sees rfl hUse ?_ (.sees rfl hTrait ?_ (.stops rfl)))
    · rw [formTokens]
      simp only [List.length_cons, List.length_append]
      omega
    · simp [apiTrait]
  obtain ⟨w, hFile⟩ : Reads (file (Grammar.ofTokens (formTokens space runtime)))
      (formTokens space runtime) (formItems space (formExpr runtime tokens)) [] :=
    (reads_noInnerAttributes (noInnerAttributes_of_hash rfl)).bind hItems
  exact ⟨tokens, by simp only [Source.parseItems?, run?, hFile]⟩

end

/-! ## The text of the tokens -/

section

open Source.Lexer (IsPlainPunct IsVerbatim Writable)

variable {space runtime : List String} {s : Tokens}

theorem writable_colons (h : Writable s) : Writable (Tokens.operator "::" ++ s) := by
  have hColon : IsPlainPunct ':' := ⟨by decide, by decide, by decide⟩
  exact .joint hColon hColon (.punct hColon h)

theorem writable_attribute {content : Tokens} (hContent : Writable content) (h : Writable s) :
    Writable (Code.attributeTokens content ++ s) :=
  .punct ⟨by decide, by decide, by decide⟩ (.group .bracket hContent h)

theorem writable_abovePath (hSpace : ∀ name ∈ space, IsSegment name) (h : Writable s) :
    Writable (abovePath space ++ s) := by
  induction space with
  | nil => exact h
  | cons name space ih =>
    obtain ⟨hName, hRest⟩ := List.forall_mem_cons.mp hSpace
    have hTokens : abovePath (name :: space) ++ s =
        .ident name :: (Tokens.operator "::" ++ (abovePath space ++ s)) := by
      simp [abovePath]
    rw [hTokens]
    exact .ident hName.token (writable_colons (ih hRest))

theorem writable_laterSegments {names : List String} (hNames : ∀ name ∈ names, IsSegment name) :
    Writable (laterSegments names) := by
  induction names with
  | nil => exact .nil
  | cons name names ih =>
    obtain ⟨hName, hRest⟩ := List.forall_mem_cons.mp hNames
    have hTokens := laterSegments_cons name names []
    rw [List.append_nil, List.append_nil] at hTokens
    rw [hTokens]
    exact writable_colons (.ident hName.token (ih hRest))

theorem writable_pathStart {names : List String} (hNonempty : names ≠ [])
    (hNames : ∀ name ∈ names, IsSegment name) : Writable (pathStart true names) := by
  obtain ⟨first, rest, rfl⟩ := List.exists_cons_of_ne_nil hNonempty
  obtain ⟨hFirst, hRest⟩ := List.forall_mem_cons.mp hNames
  rw [pathStart, if_pos rfl, separated_eq]
  exact writable_colons (.ident hFirst.token (writable_laterSegments hRest))

theorem writable_names {names : List String}
    (h : ∀ name ∈ names, (Code.Word.ident name).isToken = true) :
    Writable (Code.commaSeparated (names.map fun name => [.ident name])) := by
  induction names with
  | nil => exact .nil
  | cons name names ih =>
    obtain ⟨hName, hRest⟩ := List.forall_mem_cons.mp h
    cases names with
    | nil => exact .ident hName .nil
    | cons next names =>
      exact .ident hName (.punct ⟨by decide, by decide, by decide⟩ (ih hRest))

theorem writable_bodyParameter (hRuntime : ∀ name ∈ runtime, IsSegment name) :
    Writable (bodyParameter runtime) := by
  refine writable_attribute (.ident (by decide) .nil) (.ident (by decide) ?_)
  exact .punct ⟨by decide, by decide, by decide⟩
    (writable_pathStart (by simp [formName]) (formName_segments hRuntime))

theorem writable_sendFunction (hRuntime : ∀ name ∈ runtime, IsSegment name) :
    Writable (sendFunction runtime) := by
  have hSlash : ∀ c ∈ ['/'], IsVerbatim c :=
    List.forall_mem_singleton.mpr ⟨by decide, by decide, by decide⟩
  have hPath : Writable [.literal "\"/\""] := .string hSlash .nil
  refine writable_attribute (.ident (by decide) (.group .parenthesis hPath .nil)) ?_
  refine writable_attribute (.ident (by decide) .nil) (.ident (by decide) (.ident (by decide) ?_))
  exact .group .parenthesis (writable_bodyParameter hRuntime)
    (.punct ⟨by decide, by decide, by decide⟩ .nil)

theorem writable_formTokens (hSpace : ∀ name ∈ space, IsSegment name)
    (hRuntime : ∀ name ∈ runtime, IsSegment name) : Writable (formTokens space runtime) := by
  have hTrait : Writable (apiTrait runtime) := by
    refine writable_attribute (.ident (by decide) .nil) (.ident (by decide) (.ident (by decide) ?_))
    exact .ident (by decide) (.group .brace (writable_sendFunction hRuntime) .nil)
  refine .ident (by decide) (writable_colons ?_)
  rw [importTokens, List.append_assoc]
  exact writable_abovePath hSpace (.group .brace (writable_names (by decide))
    (.punct ⟨by decide, by decide, by decide⟩ hTrait))

/-- Whatever the two paths are, there is a text that is read as the file. -/
theorem formFile_isParsed (hSpace : ∀ name ∈ space, IsSegment name)
    (hRuntime : ∀ name ∈ runtime, IsSegment name) :
    ∃ tokens, (formFile space (formExpr runtime tokens)).IsParsed := by
  obtain ⟨tokens, hItems⟩ := parseItems?_formTokens hSpace hRuntime
  refine ⟨tokens, TokenTree.listText (formTokens space runtime), ?_⟩
  have hLexed : Source.Lexer.lexFile? (TokenTree.listText (formTokens space runtime)) =
      some (formTokens space runtime) := (writable_formTokens hSpace hRuntime).lexFile?
  rw [Source.parseFile?, hLexed]
  exact hItems

end

end TraitClient
