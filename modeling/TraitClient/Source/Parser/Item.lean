import TraitClient.Source.Parser.Expr

/-!
# Statements and items
-/
namespace TraitClient.Source.Parser

/-! ## Visibility and signatures -/

inductive Visibility
  | inherited
  | everywhere
  | restricted
  deriving DecidableEq

def restriction : Parser Unit :=
  parens do
    let s ← rest
    if peekWord "in" s then
      word "in"
      skip namePath
    else
      guard (peekWord "crate" s || peekWord "self" s || peekWord "super" s)
      skip anyIdent

def visibility : Parser Visibility := do
  if ← wordIf "pub" then
    or (do
        restriction
        pure .restricted)
      (pure .everywhere)
  else pure .inherited

/-- Whether a function signature begins here: qualifiers in their order, then `fn`. -/
def peekSignature (allowSafe : Bool) (s : Tokens) : Bool :=
  let drop (name : String) (s : Tokens) : Tokens := if peekWord name s then s.drop 1 else s
  let s := drop "async" (drop "const" s)
  let s := if allowSafe && peekWord "safe" s then s.drop 1 else drop "unsafe" s
  let s := if peekWord "extern" s then
      let s := s.drop 1
      if peekString s then s.drop 1 else s
    else s
  peekWord "fn" s

def receiver (g : Grammar) : Parser FunctionParameter := do
  let isReference ← opIf "&"
  if isReference then skip (ifSees peekLifetime lifetime)
  let isMut ← wordIf "mut"
  word "self"
  if !isReference then
    if ← opIf ":" then skip (g.type true)
  pure (.receiver isReference isMut)

def typedParameter (g : Grammar) (attributes : List Attribute) :
    Parser (Option FunctionParameter) := do
  let s ← rest
  if peekIdent s && peek2 (peekOp "<") s then
    let type ← g.type true
    pure (some (.typed attributes none type))
  else
    let kind ← g.pattern
    op ":"
    if ← opIf "..." then pure none
    else
      let type ← g.type true
      let name := match kind with
        | .plainName name => some name
        | _ => none
      pure (some (.typed attributes name type))

/-- The parameters of a function.  A receiver comes first; variadic dots come last. -/
def parameters (g : Grammar) : Parser (List FunctionParameter) := fun s =>
  let rec go (isFirst : Bool) : Nat → Parser (List FunctionParameter)
    | 0 => fail
    | fuel + 1 => do
      if ← sees peekEnd then pure [] else
      let attributes ← outerAttributes g
      if ← opIf "..." then
        skip (opIf ",")
        pure []
      else
        let found ← or (some <$> receiver g) (typedParameter g attributes)
        match found with
        | none =>
          skip (opIf ",")
          pure []
        | some p =>
          let isReceiver := match p with
            | .receiver .. => true
            | _ => false
          guard (isFirst || !isReceiver)
          if ← sees peekEnd then pure [p] else
          comma
          let more ← go false fuel
          pure (p :: more)
  go true (s.length + 1) s

structure Signature where
  name : String
  isAsync : Bool
  hasGenerics : Bool
  parameters : List FunctionParameter
  output : Option TypeExpr

def signature (g : Grammar) (allowSafe : Bool) : Parser Signature := do
  skip (wordIf "const")
  let isAsync ← wordIf "async"
  if !(← wordIf "unsafe") && allowSafe then skip (wordIf "safe")
  if ← sees (peekWord "extern") then abi
  word "fn"
  let name ← ident
  let hasGenerics ← generics g
  let parameters ← parens (parameters g)
  let output ← returnType g true
  whereClause g
  pure { name, isAsync, hasGenerics, parameters, output }

/-- A block, or a semicolon in its place: whether there is a block. -/
def bodyOrSemicolon (g : Grammar) : Parser Bool := do
  if ← sees (peekOp ";") then
    op ";"
    pure false
  else
    block g
    pure true

/-! ## Macro calls as items and statements -/

/-- `path! name? group`, with a semicolon unless the group has braces. -/
def itemMacro : Parser Unit := do
  skip namePath
  op "!"
  if ← sees (peekWord "try") then skip anyIdent else skip (ifSees peekIdent ident)
  let d ← macroContent
  if d != .brace then op ";"

def startsMacroPath (s : Tokens) : Bool :=
  peekIdent s || peekWord "self" s || peekWord "super" s || peekWord "crate" s || peekOp "::" s

/-! ## Data types -/

def namedField (g : Grammar) : Parser Unit := do
  skip (outerAttributes g)
  skip visibility
  if ← sees (peekWord "_") then skip anyIdent else skip ident
  op ":"
  skip (g.type true)

def unnamedField (g : Grammar) : Parser Unit := do
  skip (outerAttributes g)
  skip visibility
  skip (g.type true)

def namedFields (g : Grammar) : Parser Unit := skip (braces (commaList (namedField g)))

def unnamedFields (g : Grammar) : Parser Unit := skip (parens (commaList (unnamedField g)))

def structItem (g : Grammar) : Parser Unit := do
  word "struct"
  skip ident
  skip (generics g)
  let s ← rest
  if peekGroup .parenthesis s then
    unnamedFields g
    whereClause g
    op ";"
  else
    whereClause g
    if ← sees (peekGroup .brace) then namedFields g else op ";"

def variant (g : Grammar) : Parser Unit := do
  skip (outerAttributes g)
  skip visibility
  skip ident
  let s ← rest
  if peekGroup .brace s then namedFields g
  else if peekGroup .parenthesis s then unnamedFields g
  if ← opIf "=" then skip (g.expr true)

def enumItem (g : Grammar) : Parser Unit := do
  word "enum"
  skip ident
  skip (generics g)
  whereClause g
  skip (braces (commaList (variant g)))

def unionItem (g : Grammar) : Parser Unit := do
  word "union"
  skip ident
  skip (generics g)
  whereClause g
  namedFields g

/-! ## Constants, statics and type aliases -/

def constItem (g : Grammar) : Parser Unit := do
  word "const"
  if ← sees (peekWord "_") then skip anyIdent else skip ident
  skip (generics g)
  op ":"
  skip (g.type true)
  if ← opIf "=" then skip (g.expr true)
  whereClause g
  op ";"

def staticItem (g : Grammar) : Parser Unit := do
  word "static"
  skip (wordIf "mut")
  skip ident
  if ← opIf ":" then skip (g.type true)
  if ← opIf "=" then skip (g.expr true)
  op ";"

def typeItem (g : Grammar) (whereBefore whereAfter : Bool) : Parser Unit := do
  word "type"
  skip ident
  skip (generics g)
  if ← opIf ":" then
    bounds g fun s => peekWord "where" s || peekOp "=" s || peekOp ";" s
  let early ← sees (peekWord "where")
  if whereBefore then whereClause g
  if ← opIf "=" then skip (g.type true)
  if whereAfter && !(whereBefore && early) then whereClause g
  op ";"

/-! ## Traits -/

/-- An item of a trait; none for what is not a plain function. -/
def traitMember (g : Grammar) : Parser (Option TraitFunction) := do
  let attributes ← outerAttributes g
  let vis ← visibility
  let isDefault ← wordIf "default"
  let plain := vis == .inherited && !isDefault
  let s ← rest
  if peekWord "fn" s || peekSignature false s then
    let sig ← signature g false
    let hasBody ← bodyOrSemicolon g
    pure (if plain then
        some
          { attributes
            name := sig.name
            isAsync := sig.isAsync
            hasGenerics := sig.hasGenerics
            parameters := sig.parameters
            output := sig.output
            hasBody }
      else none)
  else if peekWord "const" s then
    constItem g
    pure none
  else if peekWord "type" s then
    typeItem g false true
    pure none
  else
    guard (plain && startsMacroPath s)
    itemMacro
    pure none

def supertraits (g : Grammar) (ends : Tokens → Bool) : Parser (List Bound) :=
  separated (op "+") ends (bound g false true)

def traitBody (g : Grammar) (attributes : List Attribute) (vis : Visibility) (name : String)
    (hasGenerics : Bool) : Parser Item := do
  let found ←
    if ← opIf ":" then supertraits g fun s => peekWord "where" s || peekGroup .brace s
    else pure []
  whereClause g
  let members ← braces do
    innerAttributes g
    toEnd (traitMember g)
  let supertraits := found.filterMap fun b => match b with
    | .trait bound => bound
    | _ => none
  pure <| .trait
    { attributes
      isPublic := vis == .everywhere
      name
      hasGenerics
      supertraits
      functions := members.filterMap id }

def traitItem (g : Grammar) (attributes : List Attribute) (vis : Visibility) : Parser Item := do
  let isMarked ← sees fun s => !peekWord "trait" s
  skip (wordIf "unsafe")
  skip (wordIf "auto")
  word "trait"
  let name ← ident
  let hasGenerics ← generics g
  if !isMarked && (← sees (peekOp "=")) then
    op "="
    skip (supertraits g fun s => peekWord "where" s || peekOp ";" s)
    whereClause g
    op ";"
    pure .other
  else traitBody g attributes vis name hasGenerics

/-! ## Implementations -/

def implMember (g : Grammar) : Parser Unit := do
  skip (outerAttributes g)
  let vis ← visibility
  let isDefault ← if ← sees fun s => peekWord "default" s && !peek2 (peekOp "!") s
    then wordIf "default" else pure false
  let s ← rest
  if peekWord "fn" s || peekSignature false s then
    skip (signature g false)
    skip (bodyOrSemicolon g)
  else if peekWord "const" s then constItem g
  else if peekWord "type" s then typeItem g false true
  else
    guard (vis == .inherited && !isDefault && startsMacroPath s)
    itemMacro

def implItem (g : Grammar) : Parser Unit := do
  skip (wordIf "default")
  skip (wordIf "unsafe")
  word "impl"
  if ← sees opensGenerics then skip (generics g)
  if ← sees fun s => peekOp "?" s && peek2 (peekWord "const") s then op "?"
  skip (wordIf "const")
  let isNegative ← if ← sees fun s => peekOp "!" s && !peek2 (peekGroup .brace) s
    then opIf "!" else pure false
  skip (g.type true)
  if ← wordIf "for" then skip (g.type true)
  else guard !isNegative
  whereClause g
  braces do
    innerAttributes g
    skip (toEnd (implMember g))

/-! ## Foreign items -/

def foreignMember (g : Grammar) : Parser Unit := do
  skip (outerAttributes g)
  let vis ← visibility
  let s ← rest
  if peekWord "fn" s || peekSignature true s then
    skip (signature g true)
    skip (bodyOrSemicolon g)
  else if peekWord "static" s ||
      ((peekWord "unsafe" s || peekWord "safe" s) && peek2 (peekWord "static") s) then
    if !peekWord "static" s then skip anyIdent
    staticItem g
  else if peekWord "type" s then typeItem g true true
  else
    guard (vis == .inherited && startsMacroPath s)
    itemMacro

def foreignItem (g : Grammar) : Parser Unit := do
  skip (wordIf "unsafe")
  abi
  braces do
    innerAttributes g
    skip (toEnd (foreignMember g))

/-! ## Imports -/

/-- A use tree; none if a tree inside of braces starts with `::`. -/
def useTree (allowRoot : Bool) : Nat → Parser (Option UseTree)
  | 0 => fail
  | depth + 1 => do
    let s ← rest
    if peekIdent s || peekPathWord s || peekWord "try" s then
      let name ← anyIdent
      if ← sees (peekOp "::") then
        op "::"
        let tree ← useTree false depth
        pure (tree.map (.path name))
      else if ← wordIf "as" then
        let localName ← if ← sees (peekWord "_") then anyIdent else ident
        pure (some (.rename name localName))
      else pure (some (.name name))
    else if peekOp "*" s then
      op "*"
      pure (some .glob)
    else
      let trees ← braces <| commaList do
        let fromRoot ← if allowRoot then opIf "::" else pure false
        let tree ← useTree (allowRoot && !fromRoot) depth
        pure (if fromRoot then none else tree)
      pure (if trees.all Option.isSome then some (.group (trees.filterMap id)) else none)

def useItem : Parser Item := do
  word "use"
  let leadingColon ← opIf "::"
  let s ← rest
  let tree ← useTree (!leadingColon) (TokenTree.listSize s + 1)
  op ";"
  pure (match tree with
    | some tree => .use leadingColon tree
    | none => .other)

/-! ## Items -/

def moduleItem (g : Grammar) : Parser Item := do
  skip (wordIf "unsafe")
  word "mod"
  let name ← if ← sees (peekWord "try") then anyIdent else ident
  if ← sees (peekOp ";") then
    op ";"
    pure (.module name none)
  else
    let items ← braces do
      innerAttributes g
      toEnd g.item
    pure (.module name (some items))

def macroItem : Parser Unit := do
  word "macro"
  skip ident
  if ← sees (peekGroup .parenthesis) then skip anyGroup
  guard (← sees (peekGroup .brace))
  skip anyGroup

def externCrate : Parser Unit := do
  word "extern"
  word "crate"
  if ← sees (peekWord "self") then skip anyIdent else skip ident
  if ← wordIf "as" then
    if ← sees (peekWord "_") then skip anyIdent else skip ident
  op ";"

def itemRest (g : Grammar) (attributes : List Attribute) : Parser Item := do
  let vis ← visibility
  let s ← rest
  let other (p : Parser Unit) : Parser Item := do
    p
    pure .other
  if peekWord "fn" s || peekSignature false s then
    other do
      skip (signature g false)
      skip (bodyOrSemicolon g)
  else if peekWord "extern" s then
    if peek2 (peekWord "crate") s then other externCrate
    else
      guard (vis == .inherited)
      other (foreignItem g)
  else if peekWord "use" s then useItem
  else if peekWord "static" s then other (staticItem g)
  else if peekWord "const" s then other (constItem g)
  else if peekWord "unsafe" s then
    if peek2 (peekWord "trait") s || (peek2 (peekWord "auto") s && peek3 (peekWord "trait") s) then
      traitItem g attributes vis
    else if peek2 (peekWord "impl") s then other (implItem g)
    else if peek2 (peekWord "extern") s then
      guard (vis == .inherited)
      other (foreignItem g)
    else moduleItem g
  else if peekWord "mod" s then moduleItem g
  else if peekWord "type" s then other (typeItem g true true)
  else if peekWord "struct" s then other (structItem g)
  else if peekWord "enum" s then other (enumItem g)
  else if peekWord "union" s && peek2 peekIdent s then other (unionItem g)
  else if peekWord "trait" s || (peekWord "auto" s && peek2 (peekWord "trait") s) then
    traitItem g attributes vis
  else if peekWord "impl" s || (peekWord "default" s && !peek2 (peekOp "!") s) then
    other (implItem g)
  else if peekWord "macro" s then other macroItem
  else
    guard (vis == .inherited && startsMacroPath s)
    other itemMacro

def itemStep (g : Grammar) : Parser Item := do
  let attributes ← outerAttributes g
  itemRest g attributes

/-! ## Statements -/

/-- A macro call with braces that is a statement of its own: its braces end it. -/
def bracedMacroLength? (s : Tokens) : Bool :=
  match namePath s with
  | some r =>
    peekOp "!" r.rest && peek2 (peekGroup .brace) r.rest &&
      !((peek3 (peekOp ".") r.rest && !peek3 (peekOp "..") r.rest) || peek3 (peekOp "?") r.rest)
  | none => false

def namesMacro (s : Tokens) : Bool :=
  match namePath s with
  | some r => peekOp "!" r.rest && (peek2 peekIdent r.rest || peek2 (peekWord "try") r.rest)
  | none => false

def startsItem (s : Tokens) : Bool :=
  peekWord "pub" s || (peekWord "crate" s && !peek2 (peekOp "::") s) || peekWord "extern" s ||
    peekWord "use" s ||
    (peekWord "static" s &&
      (peek2 (peekWord "mut") s ||
        (peek2 peekIdent s &&
          !(peek2 (peekWord "async") s && (peek3 (peekWord "move") s || peek3 (peekOp "|") s))))) ||
    (peekWord "const" s &&
      !(peek2 (peekGroup .brace) s || peek2 (peekWord "static") s ||
        (peek2 (peekWord "async") s &&
          !(peek3 (peekWord "unsafe") s || peek3 (peekWord "extern") s || peek3 (peekWord "fn") s)) ||
        peek2 (peekWord "move") s || peek2 (peekOp "|") s)) ||
    (peekWord "unsafe" s && !peek2 (peekGroup .brace) s) ||
    (peekWord "async" s &&
      (peek2 (peekWord "unsafe") s || peek2 (peekWord "extern") s || peek2 (peekWord "fn") s)) ||
    peekWord "fn" s || peekWord "mod" s || peekWord "type" s || peekWord "struct" s ||
    peekWord "enum" s || (peekWord "union" s && peek2 peekIdent s) ||
    (peekWord "auto" s && peek2 (peekWord "trait") s) || peekWord "trait" s ||
    (peekWord "default" s && (peek2 (peekWord "unsafe") s || peek2 (peekWord "impl") s)) ||
    peekWord "impl" s || peekWord "macro" s || namesMacro s

def endsInBrace (written : Tokens) : Bool :=
  match written.getLast? with
  | some (.group .brace _) => true
  | _ => false

def letStatement (g : Grammar) : Parser Unit := do
  word "let"
  skip g.pattern
  if ← opIf ":" then skip (g.type true)
  if ← opIf "=" then
    let (_, value) ← written (g.expr true)
    if !endsInBrace value && (← sees (peekWord "else")) then
      word "else"
      block g
  op ";"

/-- One statement: whether the next one needs a semicolon before it. -/
def statement (g : Grammar) : Parser Bool := do
  let attributes ← outerAttributes g
  let s ← rest
  if bracedMacroLength? s then
    skip namePath
    op "!"
    skip macroContent
    skip (opIf ";")
    pure false
  else if peekWord "let" s then
    letStatement g
    pure false
  else if startsItem s then
    skip (itemRest g attributes)
    pure false
  else
    let kind ← g.statementExpr
    if ← opIf ";" then pure false
    else
      pure (match kind with
        | .macroCall inBraces => !inBraces
        | kind => needsComma kind)

def statementsStep (g : Grammar) : Parser Unit :=
  skip <| many do
    skip <| whileSees (peekOp ";") (op ";")
    if ← sees peekEnd then pure none else
    let open_ ← statement g
    if open_ then guard (← sees peekEnd)
    pure (some ())

end TraitClient.Source.Parser
