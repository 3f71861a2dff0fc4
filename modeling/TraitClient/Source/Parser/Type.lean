import TraitClient.Source.Parser.Grammar

/-!
# Types, paths, bounds and generics
-/
namespace TraitClient.Source.Parser

/-! ## Bounds -/

def boundsUntil {α : Type} (bound : Parser α) (stop : Tokens → Bool) : Parser (List α) := fun s =>
  let rec go : Nat → Parser (List α)
    | 0 => fail
    | fuel + 1 => do
      if ← sees stop then pure [] else
      let b ← bound
      if ← sees (peekOp "+") then
        op "+"
        let more ← go fuel
        pure (b :: more)
      else pure [b]
  go (s.length + 1) s

/-- `for<'a, 'b: 'a>`, if it is there. -/
def boundLifetimes (g : Grammar) : Parser Bool := do
  if ← sees (peekWord "for") then
    word "for"
    op "<"
    skip <| separated comma (peekOp ">") do
      skip (outerAttributes g)
      skip lifetime
      if ← sees (peekOp ":") then
        op ":"
        skip <| boundsUntil lifetime fun s => peekEnd s || peekOp "," s || peekOp ">" s
    op ">"
    pure true
  else pure false

/-! ## Paths -/

/-- One argument between angle brackets, before its place in the list is known. -/
structure AngleArgument where
  isLifetime : Bool
  value : TypeArgument
  tokens : Tokens
  hasComma : Bool

/-- Lifetimes are written before all other arguments. -/
def AngleArgument.arrange (arguments : List AngleArgument) : Tokens :=
  let (lifetimes, others) := arguments.partition (·.isLifetime)
  let comma : Tokens := [.punct ',' false]
  let write (a : AngleArgument) : Tokens := a.tokens ++ (if a.hasComma then comma else [])
  let closed := (lifetimes.getLast?.map (·.hasComma)).getD true
  lifetimes.flatMap write ++
    (others.foldl (fun (out, closed) a =>
      (out ++ (if closed then [] else comma) ++ write a, a.hasComma)) ([], closed)).1

def constArgument (g : Grammar) : Parser Unit := do
  let s ← rest
  if peekLit s then lit
  else if peekIdent s then skip ident
  else block g

def isSingleName : TypeExpr → Bool
  | .path _ false [.mk _ .none] => true
  | .path _ false [.mk _ (.angle _)] => true
  | _ => false

section

variable (g : Grammar)

/-- `bound` parses a trait bound; it is passed in because bounds hold paths. -/
def genericArgument (bound : Parser Unit) : Parser (Bool × TypeArgument) := do
  let s ← rest
  if peekLifetime s && !peek2 (peekOp "+") s then
    let name ← lifetime
    pure (true, .lifetime name)
  else if peekLit s || peekGroup .brace s then
    constArgument g
    pure (false, .other)
  else
    let t ← g.type true
    if isSingleName t then
      if ← sees (peekOp "=") then
        op "="
        let s ← rest
        if peekLit s || peekGroup .brace s then constArgument g
        else skip (g.type true)
        pure (false, .other)
      else if ← sees (peekOp ":") then
        op ":"
        skip <| boundsUntil bound fun s => peekOp "," s || peekOp ">" s
        pure (false, .other)
      else pure (false, .type t)
    else pure (false, .type t)

def angleArguments (bound : Parser Unit) : Parser (List TypeArgument) :=
  respelled do
    let (_, opening) ← written do
      skip (opIf "::")
      op "<"
    let arguments ← many do
      if ← sees (peekOp ">") then pure none else
      let ((isLifetime, value), tokens) ← written (genericArgument g bound)
      let hasComma ←
        if ← sees (peekOp ">") then pure false
        else
          comma
          pure true
      pure (some { isLifetime, value, tokens, hasComma : AngleArgument })
    op ">"
    pure (arguments.map (·.value), opening ++ AngleArgument.arrange arguments ++ Tokens.operator ">")

/-- `-> T`, if it is there. -/
def returnType (allowPlus : Bool) : Parser (Option TypeExpr) :=
  ifSees (peekOp "->") do
    op "->"
    g.type allowPlus

/-- `(A, B) -> C` after the name of a function trait. -/
def parenthesizedArguments : Parser Unit := do
  skip <| parens (commaList (g.type true))
  skip (returnType g false)

/-- One segment; in an expression its arguments stand after `::`. -/
def pathSegment (bound : Parser Unit) (inExpr : Bool) : Parser TypeSegment := do
  let s ← rest
  if peekWord "super" s || peekWord "self" s || peekWord "crate" s || peekWord "try" s then
    let name ← anyIdent
    pure (.mk name .none)
  else
    let name ← if peekWord "Self" s then anyIdent else ident
    let s ← rest
    if (!inExpr && peekOp "<" s && !peekOp "<=" s) || (peekOp "::" s && peek3 (peekOp "<") s) then
      let arguments ← angleArguments g bound
      pure (.mk name (.angle arguments))
    else pure (.mk name .none)

/-- Further segments, each after `::`, but not a `::` before parentheses. -/
def moreSegments (bound : Parser Unit) (inExpr : Bool) : Parser (List TypeSegment) :=
  whileSees (fun s => peekOp "::" s && !peek3 (peekGroup .parenthesis) s) do
    op "::"
    pathSegment g bound inExpr

structure AnyPath where
  qualified : Bool
  leadingColon : Bool
  segments : List TypeSegment

def AnyPath.isModStyle (p : AnyPath) : Bool :=
  p.segments.all fun s => match s.arguments with
    | .none => true
    | _ => false

def plainPath (bound : Parser Unit) (inExpr : Bool) : Parser AnyPath := do
  let leadingColon ← opIf "::"
  let first ← pathSegment g bound inExpr
  let more ← moreSegments g bound inExpr
  pure ⟨false, leadingColon, first :: more⟩

def anyPathWith (bound : Parser Unit) (inExpr : Bool) : Parser AnyPath := do
  if ← sees (peekOp "<") then
    op "<"
    skip (g.type true)
    if ← sees (peekWord "as") then
      word "as"
      skip (plainPath g bound false)
    op ">"
    op "::"
    let first ← pathSegment g bound inExpr
    let more ← whileSees (peekOp "::") do
      op "::"
      pathSegment g bound inExpr
    pure ⟨true, false, first :: more⟩
  else plainPath g bound inExpr

/-! ## Trait bounds -/

/-- `&` before a lone `const` in brackets, or `const`: a conditional bound. -/
def boundConstness : Parser Bool := do
  let s ← rest
  if peekGroup .bracket s then
    brackets (word "const")
    pure true
  else wordIf "const"

def withParentheses (segments : List TypeSegment) : List TypeSegment :=
  segments.dropLast ++ (segments.getLast?.map fun s => .mk s.name .parenthesized).toList

/-- The trait of a bound with its modifiers; none for a bound that names no trait plainly. -/
def traitBoundWith (bound : Parser Unit) (allowConst : Bool) : Parser (Option TraitBound) := do
  let early ← boundLifetimes g
  let conditional ← boundConstness
  guard (allowConst || !conditional)
  let maybe ← opIf "?"
  if maybe && !early then
    skip (boundLifetimes g)
  let path ← plainPath g bound false
  let bare := match path.segments.getLast? with
    | some (.mk _ .none) => true
    | _ => false
  let s ← rest
  let segments ←
    if bare && (peekGroup .parenthesis s || (peekOp "::" s && peek3 (peekGroup .parenthesis) s)) then
      skip (opIf "::")
      parenthesizedArguments g
      pure (withParentheses path.segments)
    else pure path.segments
  pure (if conditional then none else some ⟨path.leadingColon, segments⟩)

inductive Bound
  | lifetime
  | trait (bound : Option TraitBound)
  | capture

def preciseCapture : Parser Bound := do
  word "use"
  op "<"
  skip <| separated comma (peekOp ">") do
    if ← sees peekLifetime then skip lifetime else skip anyIdent
  op ">"
  pure .capture

def boundWith (bound : Parser Unit) (allowCapture allowConst : Bool) : Parser Bound := do
  let s ← rest
  if peekLifetime s then
    skip lifetime
    pure .lifetime
  else if allowCapture && peekWord "use" s then preciseCapture
  else if peekGroup .parenthesis s then
    let found ← parens (traitBoundWith g bound allowConst)
    pure (.trait found)
  else
    let found ← traitBoundWith g bound allowConst
    pure (.trait found)

end

/-- A bound as it stands in the arguments of a path.  Bounds hold paths and paths hold bounds, so
`depth` limits how deep one is inside the other. -/
def nestedBound (g : Grammar) : Nat → Parser Unit
  | 0 => fail
  | depth + 1 => fun s => skip (boundWith g (nestedBound g depth) false true) s

def innerBound (g : Grammar) : Parser Unit := fun s =>
  nestedBound g (TokenTree.listSize s + 1) s

def bound (g : Grammar) (allowCapture allowConst : Bool) : Parser Bound :=
  boundWith g (innerBound g) allowCapture allowConst

def anyPath (g : Grammar) (inExpr : Bool) : Parser AnyPath := anyPathWith g (innerBound g) inExpr

def turbofish (g : Grammar) : Parser Unit := do
  guard (← sees (peekOp "::"))
  skip (angleArguments g (innerBound g))

def macroContent : Parser Delimiter := (·.1) <$> anyGroup

/-! ## Types -/

def hasTrait (bounds : List Bound) : Bool :=
  bounds.any fun b => match b with
    | .lifetime => false
    | _ => true

def startsBound (s : Tokens) : Bool :=
  peekAnyIdent s || peekOp "::" s || peekOp "?" s || peekLifetime s || peekGroup .parenthesis s ||
    peekGroup .bracket s

def moreBounds (g : Grammar) (allowCapture allowConst : Bool) : Parser (List Bound) := fun s =>
  let rec go : Nat → Parser (List Bound)
    | 0 => fail
    | fuel + 1 => do
      if ← sees (peekOp "+") then
        op "+"
        if ← sees startsBound then
          let b ← bound g allowCapture allowConst
          let more ← go fuel
          pure (b :: more)
        else pure []
      else pure []
  go (s.length + 1) s

def traitObjectBounds (g : Grammar) (allowPlus allowCapture : Bool) : Parser Unit := do
  let first ← bound g allowCapture true
  let more ← if allowPlus then moreBounds g allowCapture true else pure []
  guard (hasTrait (first :: more))

def plusBounds (g : Grammar) : Parser Unit :=
  skip <| whileSees (peekOp "+") do
    op "+"
    bound g false false

def abi : Parser Unit := do
  word "extern"
  skip (ifSees peekString lit)

def variadicDots : Parser Unit := op "..."

/-- One parameter of a function pointer: a name and a colon may stand before the type. -/
def functionPointerParameter (g : Grammar) (isFirst : Bool) : Parser Unit := do
  let s ← rest
  if isFirst && peekWord "mut" s && peek2 (peekWord "self") s then
    word "mut"
    word "self"
    if ← opIf ":" then skip (g.type true)
  else
    let named := (peekIdent s || peekWord "_" s || (isFirst && peekWord "self" s)) &&
      peek2 (peekOp ":") s && !peek2 (peekOp "::") s
    if named then
      skip anyIdent
      op ":"
    skip (g.type true)

def functionPointerParameters (g : Grammar) : Parser Unit := fun s =>
  let rec go (isFirst : Bool) : Nat → Parser Unit
    | 0 => fail
    | fuel + 1 => do
      if ← sees peekEnd then pure () else
      skip (outerAttributes g)
      let s ← rest
      if peekOp "..." s ||
          ((peekIdent s || peekWord "_" s) && peek2 (peekOp ":") s && peek3 (peekOp "...") s) then
        if !peekOp "..." s then
          skip anyIdent
          op ":"
        variadicDots
        skip (opIf ",")
      else
        functionPointerParameter g isFirst
        if ← sees peekEnd then pure () else
        comma
        go false fuel
  go true (s.length + 1) s

def functionPointer (g : Grammar) : Parser Unit := do
  skip (wordIf "unsafe")
  if ← sees (peekWord "extern") then abi
  word "fn"
  parens (functionPointerParameters g)
  skip (returnType g false)

/-- After `(`: unit, a tuple, a type in parentheses, or the first bound of a trait object. -/
inductive ParenContent
  | empty
  | tuple
  | optionalBound
  | object
  | single (inner : TypeExpr)

def parenContent (g : Grammar) : Parser ParenContent := do
  let s ← rest
  if peekEnd s then pure .empty
  else if peekLifetime s then
    traitObjectBounds g true false
    pure .object
  else if peekOp "?" s then
    skip (traitBoundWith g (innerBound g) true)
    pure .optionalBound
  else
    let first ← g.type true
    if ← sees (peekOp ",") then
      skip <| whileSees (peekOp ",") do
        comma
        ifSees (fun s => !peekEnd s) (g.type true)
      pure .tuple
    else pure (.single first)

def isObjectLike : TypeExpr → Bool
  | .path .. => true
  | _ => false

def startsPath (s : Tokens) : Bool :=
  peekIdent s || peekPathWord s || peekOp "::" s || peekOp "<" s

def typeShape (g : Grammar) (allowPlus : Bool) : Parser (Tokens → TypeExpr) := do
  let higher ← boundLifetimes g
  let s ← rest
  guard (!higher || peekIdent s || peekPathWord s || peekWord "fn" s || peekWord "unsafe" s ||
    peekWord "extern" s || peekOp "::" s)
  if peekGroup .parenthesis s then
    match ← parens (parenContent g) with
    | .empty => pure fun _ => .unit
    | .tuple => pure .other
    | .object => pure fun tokens => .paren tokens (.other tokens)
    | .optionalBound =>
      plusBounds g
      pure .other
    | .single inner =>
      if allowPlus && isObjectLike inner && (← sees (peekOp "+")) then
        plusBounds g
        pure .other
      else pure fun tokens => .paren tokens inner
  else if peekWord "fn" s || peekWord "unsafe" s || peekWord "extern" s then
    functionPointer g
    pure .other
  else if startsPath s then
    let path ← anyPath g false
    let s ← rest
    if !path.qualified && peekOp "!" s && !peekOp "!=" s && path.isModStyle then
      op "!"
      skip macroContent
      pure .other
    else if higher || (allowPlus && peekOp "+" s) then
      if allowPlus then skip (moreBounds g false false)
      pure .other
    else if path.qualified then pure .other
    else pure fun tokens => .path tokens path.leadingColon path.segments
  else if peekWord "dyn" s then
    word "dyn"
    skip (opIf "*")
    traitObjectBounds g allowPlus false
    pure .other
  else if peekGroup .bracket s then
    let element ← brackets do
      let element ← g.type true
      if ← sees (peekOp ";") then
        op ";"
        skip (g.expr true)
        pure none
      else pure (some element)
    match element with
    | some element => pure fun tokens => .slice tokens element
    | none => pure .other
  else if peekOp "*" s then
    op "*"
    if ← sees (peekWord "const") then word "const" else word "mut"
    skip (g.type false)
    pure .other
  else if peekOp "&" s then
    op "&"
    let lifetime ← ifSees peekLifetime lifetime
    let isMut ← wordIf "mut"
    let target ← g.type false
    pure fun tokens => .reference tokens lifetime isMut target
  else if peekOp "!" s then
    op "!"
    pure .other
  else if peekWord "impl" s then
    word "impl"
    traitObjectBounds g allowPlus true
    pure .other
  else if peekWord "_" s then
    word "_"
    pure .other
  else if peekLifetime s then
    traitObjectBounds g allowPlus false
    pure .other
  else fail

def typeStep (g : Grammar) (allowPlus : Bool) : Parser TypeExpr := do
  let (shape, tokens) ← written (typeShape g allowPlus)
  pure (shape tokens)

/-! ## Generics -/

def lifetimeBounds (stop : Tokens → Bool) : Parser Unit := skip (boundsUntil lifetime stop)

def bounds (g : Grammar) (stop : Tokens → Bool) : Parser Unit :=
  skip (boundsUntil (bound g false true) stop)

def genericParameter (g : Grammar) : Parser Unit := do
  skip (outerAttributes g)
  let s ← rest
  let ends (s : Tokens) : Bool := peekEnd s || peekOp "," s || peekOp ">" s
  if peekLifetime s then
    skip lifetime
    if ← opIf ":" then lifetimeBounds ends
  else if peekWord "const" s then
    word "const"
    skip ident
    op ":"
    skip (g.type true)
    if ← opIf "=" then constArgument g
  else
    if peekWord "_" s then skip anyIdent else skip ident
    if ← opIf ":" then bounds g fun s => ends s || peekOp "=" s
    if ← opIf "=" then skip (g.type true)

/-- The parameters between angle brackets, if there are brackets: whether there is a parameter. -/
def generics (g : Grammar) : Parser Bool := do
  if ← sees (peekOp "<") then
    op "<"
    let parameters ← separated comma (peekOp ">") (genericParameter g)
    op ">"
    pure !parameters.isEmpty
  else pure false

def wherePredicate (g : Grammar) : Parser Unit := do
  let ends (s : Tokens) : Bool :=
    peekEnd s || peekGroup .brace s || peekOp "," s || peekOp ";" s ||
      (peekOp ":" s && !peekOp "::" s) || peekOp "=" s
  let s ← rest
  if peekLifetime s && peek2 (peekOp ":") s then
    skip lifetime
    op ":"
    lifetimeBounds ends
  else
    skip (boundLifetimes g)
    skip (g.type true)
    op ":"
    bounds g ends

def whereClause (g : Grammar) : Parser Unit := do
  if ← sees (peekWord "where") then
    word "where"
    let ends (s : Tokens) : Bool :=
      peekEnd s || peekGroup .brace s || peekOp "," s || peekOp ";" s ||
        (peekOp ":" s && !peekOp "::" s) || peekOp "=" s
    let rec go : Nat → Parser Unit
      | 0 => fail
      | fuel + 1 => do
        if ← sees ends then pure () else
        wherePredicate g
        if ← sees (peekOp ",") then
          comma
          go fuel
    let s ← rest
    go (s.length + 1)

/-- Whether the angle bracket after `impl` opens generics and not a path. -/
def opensGenerics (s : Tokens) : Bool :=
  peekOp "<" s &&
    (peek2 (peekOp ">") s || peek2 (peekOp "#") s || peek2 (peekWord "const") s ||
      ((peek2 peekLifetime s || peek2 peekIdent s) &&
        (peek3 (peekOp ">") s || peek3 (peekOp ",") s || peek3 (peekOp "=") s ||
          (peek3 (peekOp ":") s && !peek3 (peekOp "::") s))))

end TraitClient.Source.Parser
