import TraitClient.Source.Parser.Type

/-!
# Patterns
-/
namespace TraitClient.Source.Parser

def patternAlternatives (g : Grammar) : Parser PatternKind := do
  let isBar (s : Tokens) : Bool := peekOp "|" s && !peekOp "||" s && !peekOp "|=" s
  skip (ifSees isBar (op "|"))
  let first ← g.pattern
  let more ← whileSees isBar do
    op "|"
    g.pattern
  pure (if more.isEmpty then first else .other)

def rangeOperator : Parser Bool := do
  if ← sees (peekOp "..=") then
    op "..="
    pure true
  else if ← sees (peekOp "...") then
    op "..."
    pure true
  else
    op ".."
    pure false

def rangeBound (g : Grammar) : Parser Bool := do
  let s ← rest
  if peekEnd s || peekOp "|" s || peekOp "=" s || (peekOp ":" s && !peekOp "::" s) ||
      peekOp "," s || peekOp ";" s || peekWord "if" s then pure false
  else if peekLit s then
    lit
    pure true
  else if startsPath s then
    skip (anyPath g true)
    pure true
  else if peekWord "const" s then
    word "const"
    block g
    pure true
  else fail

def rangeRest (g : Grammar) : Parser PatternKind := do
  let closed ← rangeOperator
  let bounded ← rangeBound g
  guard (bounded || !closed)
  pure (if bounded then .other else .openRange)

def fieldPattern (g : Grammar) : Parser Unit := do
  let isBox ← wordIf "box"
  let isRef ← wordIf "ref"
  let isMut ← wordIf "mut"
  let s ← rest
  if peekIdent s then skip ident
  else
    guard (!isBox && !isRef && !isMut)
    lit
  if (!isBox && !isRef && !isMut && (← sees (peekOp ":"))) || !peekIdent s then
    op ":"
    skip (patternAlternatives g)

def structPattern (g : Grammar) : Parser Unit :=
  braces do
    skip <| separated comma peekEnd do
      skip (outerAttributes g)
      if ← sees (peekOp "..") then
        op ".."
        guard (← sees peekEnd)
      else fieldPattern g

def identPattern (g : Grammar) : Parser PatternKind := do
  let isRef ← wordIf "ref"
  skip (wordIf "mut")
  let name ← if ← sees (peekWord "self") then anyIdent else ident
  if ← sees (peekOp "@") then
    op "@"
    skip g.pattern
    pure .other
  else pure (if isRef then .other else .plainName name)

def pathPattern (g : Grammar) : Parser PatternKind := do
  let path ← anyPath g true
  let s ← rest
  if !path.qualified && peekOp "!" s && !peekOp "!=" s && path.isModStyle then
    op "!"
    skip macroContent
    pure .other
  else if peekGroup .brace s then
    structPattern g
    pure .other
  else if peekGroup .parenthesis s then
    skip <| parens (commaList (patternAlternatives g))
    pure .other
  else if peekOp ".." s then rangeRest g
  else pure .other

def patternStep (g : Grammar) : Parser PatternKind := do
  let s ← rest
  if (peekIdent s && (peek2 (peekOp "::") s || peek2 (peekOp "!") s || peek2 (peekGroup .brace) s ||
        peek2 (peekGroup .parenthesis) s || peek2 (peekOp "..") s)) ||
      (peekWord "self" s && peek2 (peekOp "::") s) || peekOp "::" s || peekOp "<" s ||
      peekWord "Self" s || peekWord "super" s || peekWord "crate" s then
    pathPattern g
  else if peekWord "_" s then
    word "_"
    pure .other
  else if peekWord "box" s then
    word "box"
    skip g.pattern
    pure .other
  else if peekOp "-" s || peekLit s || peekWord "const" s then
    guard (← rangeBound g)
    if ← sees (peekOp "..") then rangeRest g else pure .other
  else if peekWord "ref" s || peekWord "mut" s || peekWord "self" s || peekIdent s then
    identPattern g
  else if peekOp "&" s then
    op "&"
    skip (wordIf "mut")
    skip g.pattern
    pure .other
  else if peekGroup .parenthesis s then
    skip <| parens (commaList (patternAlternatives g))
    pure .other
  else if peekGroup .bracket s then
    skip <| brackets <| commaList do
      let kind ← patternAlternatives g
      guard (kind != .openRange)
    pure .other
  else if peekOp ".." s && !peekOp "..." s then
    let closed ← rangeOperator
    let bounded ← rangeBound g
    guard (bounded || !closed)
    pure (if bounded then .openRange else .rest)
  else fail

end TraitClient.Source.Parser
