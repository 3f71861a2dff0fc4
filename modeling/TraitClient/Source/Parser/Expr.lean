import TraitClient.Source.Parser.Pattern

/-!
# Expressions and statements

Binary operators bind by `Precedence`; an operand is a unary expression, which is an atom with
calls, fields, indices and `?` after it.
-/
namespace TraitClient.Source.Parser

/-! ## Operators -/

/-- Binary operators, longer spellings before their beginnings. -/
def binaryOperators : List (String × Precedence) :=
  [("<<=", .assign), (">>=", .assign), ("+=", .assign), ("-=", .assign), ("*=", .assign),
    ("/=", .assign), ("%=", .assign), ("^=", .assign), ("&=", .assign), ("|=", .assign),
    ("&&", .and), ("||", .or), ("<<", .shift), (">>", .shift), ("==", .compare), ("<=", .compare),
    ("!=", .compare), (">=", .compare), ("+", .sum), ("-", .sum), ("*", .product),
    ("/", .product), ("%", .product), ("^", .bitXor), ("&", .bitAnd), ("|", .bitOr),
    ("<", .compare), (">", .compare)]

def binaryOperator? (s : Tokens) : Option (String × Precedence) :=
  binaryOperators.find? fun (text, _) => peekOp text s

def nextPrecedence (s : Tokens) : Precedence :=
  match binaryOperator? s with
  | some (_, p) => p
  | none =>
    if peekOp "=" s && !peekOp "=>" s then .assign
    else if peekOp ".." s then .range
    else if peekWord "as" s then .cast
    else .lowest

def rangeLimits : Parser Bool := do
  if ← opIf "..=" then pure true
  else
    guard (!(← sees (peekOp "...")))
    op ".."
    pure false

/-- Whether a half-open range has no end. -/
def endsRange (allowStruct : Bool) (s : Tokens) : Bool :=
  peekEnd s || peekOp "," s || peekOp ";" s || (peekOp "." s && !peekOp ".." s) || peekOp "?" s ||
    peekOp "=>" s || (!allowStruct && peekGroup .brace s) || peekOp "=" s || peekOp "+" s ||
    peekOp "/" s || peekOp "%" s || peekOp "^" s || peekOp ">" s || peekOp "<=" s ||
    peekOp "!=" s || peekOp "-=" s || peekOp "*=" s || peekOp "&=" s || peekOp "|=" s ||
    peekOp "<<=" s || peekWord "as" s

def canBeginExpr (s : Tokens) : Bool :=
  peekAnyIdent s || peekGroup .parenthesis s || peekGroup .bracket s || peekGroup .brace s ||
    peekLit s || (peekOp "!" s && !peekOp "!=" s) ||
    (peekOp "-" s && !peekOp "-=" s && !peekOp "->" s) || (peekOp "*" s && !peekOp "*=" s) ||
    (peekOp "|" s && !peekOp "|=" s) || (peekOp "&" s && !peekOp "&=" s) || peekOp ".." s ||
    (peekOp "<" s && !peekOp "<=" s && !peekOp "<<=" s) || peekOp "::" s || peekLifetime s ||
    peekOp "#" s

/-- Whether what follows a cast would be taken for a part of its operand. -/
def followsCast (s : Tokens) : Bool :=
  (peekOp "." s && !peekOp ".." s) || peekOp "?" s || peekGroup .bracket s ||
    peekGroup .parenthesis s

/-! ## Parts of expressions -/

section

variable (g : Grammar)

def exprList : Parser Unit := skip (commaList (g.expr true))

def label : Parser Unit := do
  if ← sees peekLifetime then
    skip lifetime
    op ":"

def fieldValue : Parser Unit := do
  skip (outerAttributes g)
  let s ← rest
  if peekIdent s then
    skip ident
    if ← sees (peekOp ":") then
      op ":"
      skip (g.expr true)
  else
    lit
    op ":"
    skip (g.expr true)

def structFields : Parser Unit :=
  braces <| skip <| separated comma peekEnd do
    if ← sees (peekOp "..") then
      op ".."
      if !(← sees peekEnd) then
        skip (g.expr true)
      guard (← sees peekEnd)
    else fieldValue g

def pathExpr (allowStruct : Bool) : Parser ExprKind := do
  let path ← anyPath g true
  let s ← rest
  if !path.qualified && peekOp "!" s && !peekOp "!=" s && path.isModStyle then
    op "!"
    let d ← macroContent
    pure (.macroCall (d = .brace))
  else if allowStruct && peekGroup .brace s then
    structFields g
    pure .other
  else pure .other

def closureParameter : Parser Unit := do
  skip (outerAttributes g)
  skip g.pattern
  if ← opIf ":" then skip (g.type true)

def closure (allowStruct : Bool) : Parser ExprKind := do
  skip (boundLifetimes g)
  skip (wordIf "const")
  skip (wordIf "static")
  skip (wordIf "async")
  skip (wordIf "move")
  op "|"
  skip <| separated comma (peekOp "|") (closureParameter g)
  op "|"
  if ← sees (peekOp "->") then
    op "->"
    skip (g.type true)
    block g
  else skip (g.expr allowStruct)
  pure .other

/-- An `if` with all of its `else` branches, at most `fuel`. -/
def ifExpr : Nat → Parser Unit
  | 0 => fail
  | fuel + 1 => do
    word "if"
    skip (g.expr false)
    block g
    if ← wordIf "else" then
      if ← sees (peekWord "if") then ifExpr fuel
      else block g

/-- Whether a match arm ends only at a comma. -/
def needsComma : ExprKind → Bool
  | .blockLike => false
  | _ => true

def startsBlockLike (s : Tokens) : Bool :=
  peekWord "if" s || peekWord "while" s || (peekWord "for" s && !peek2 (peekOp "<") s) ||
    peekWord "loop" s || peekWord "match" s || (peekWord "try" s && peek2 (peekGroup .brace) s) ||
    peekWord "unsafe" s || (peekWord "const" s && peek2 (peekGroup .brace) s) ||
    peekGroup .brace s || peekLifetime s

end

/-! ## Statements as expressions -/

def matchArms (g : Grammar) : Parser Unit := do
  innerAttributes g
  skip <| toEnd do
    skip (outerAttributes g)
    skip (patternAlternatives g)
    if ← wordIf "if" then skip (g.expr true)
    op "=>"
    let kind ← g.statementExpr
    if needsComma kind then
      if !(← sees peekEnd) then comma
    else skip (opIf ",")

def blockLike (g : Grammar) : Parser ExprKind := do
  label
  let s ← rest
  if peekWord "if" s then ifExpr g (s.length + 1)
  else if peekWord "while" s then
    word "while"
    skip (g.expr false)
    block g
  else if peekWord "for" s then
    word "for"
    skip (patternAlternatives g)
    word "in"
    skip (g.expr false)
    block g
  else if peekWord "loop" s then
    word "loop"
    block g
  else if peekWord "match" s then
    word "match"
    skip (g.expr false)
    braces (matchArms g)
  else if peekWord "try" s then
    word "try"
    block g
  else if peekWord "unsafe" s then
    word "unsafe"
    block g
  else if peekWord "const" s then
    word "const"
    block g
  else block g
  pure .blockLike

def optionalValue (g : Grammar) (allowStruct : Bool) : Parser Unit := do
  let s ← rest
  if canBeginExpr s && (allowStruct || !peekGroup .brace s) then
    skip (g.expr allowStruct)

def parenExpr (g : Grammar) : Parser Unit := parens (exprList g)

def arrayExpr (g : Grammar) : Parser Unit :=
  brackets do
    if ← sees peekEnd then pure () else
    skip (g.expr true)
    if ← sees (peekOp ";") then
      op ";"
      skip (g.expr true)
    else if ← sees peekEnd then pure ()
    else
      comma
      exprList g

/-- The right side of an operator: operators that bind tighter belong to it. -/
def rightSide (g : Grammar) (allowStruct : Bool) (precedence : Precedence) : Parser Unit := do
  let first ← g.operand allowStruct
  let s ← rest
  let rec go (kind : ExprKind) : Nat → Parser Unit
    | 0 => fail
    | fuel + 1 => do
      let s ← rest
      let next := nextPrecedence s
      if next > precedence || (next == precedence && precedence == .assign) then
        let kind ← g.operators allowStruct next kind
        let after ← rest
        if after.length = s.length then pure () else go kind fuel
      else pure ()
  go first (s.length + 1)

def rangeEnd (g : Grammar) (closed allowStruct : Bool) : Parser Unit := do
  let s ← rest
  if closed || !endsRange allowStruct s then rightSide g allowStruct .range

def atom (g : Grammar) (allowStruct : Bool) : Parser ExprKind := do
  let s ← rest
  let other (p : Parser Unit) : Parser ExprKind := do
    p
    pure .other
  if peekLit s && !peekOp "-" s then other lit
  else if peekWord "async" s &&
      (peek2 (peekGroup .brace) s || (peek2 (peekWord "move") s && peek3 (peekGroup .brace) s)) then
    other do
      word "async"
      skip (wordIf "move")
      block g
  else if peekWord "try" s && peek2 (peekGroup .brace) s then blockLike g
  else if peekOp "|" s || peekWord "move" s ||
      (peekWord "for" s && peek2 (peekOp "<") s &&
        (peek3 peekLifetime s || peek3 (peekOp ">") s)) ||
      (peekWord "const" s && !peek2 (peekGroup .brace) s) || peekWord "static" s ||
      (peekWord "async" s && (peek2 (peekOp "|") s || peek2 (peekWord "move") s)) then
    closure g allowStruct
  else if peekWord "builtin" s && peek2 (peekOp "#") s then
    other do
      word "builtin"
      op "#"
      skip ident
      skip (parens (toEnd (fun s => match s with
        | t :: rest => some ⟨(), [t], rest⟩
        | [] => none)))
  else if startsPath s || (peekWord "try" s && (peek2 (peekOp "!") s || peek2 (peekOp "::") s)) then
    pathExpr g allowStruct
  else if peekGroup .parenthesis s then other (parenExpr g)
  else if peekWord "break" s then
    other do
      word "break"
      let s ← rest
      if peekLifetime s then
        guard (!peek2 (peekOp ":") s)
        skip lifetime
      optionalValue g allowStruct
  else if peekWord "continue" s then
    other do
      word "continue"
      skip (ifSees peekLifetime lifetime)
  else if peekWord "return" s then
    other do
      word "return"
      optionalValue g allowStruct
  else if peekWord "become" s then
    other do
      word "become"
      skip (g.expr true)
  else if peekGroup .bracket s then other (arrayExpr g)
  else if peekWord "let" s then
    other do
      word "let"
      skip (patternAlternatives g)
      op "="
      let first ← g.operand false
      skip (g.operators false .compare first)
  else if peekWord "if" s || peekWord "while" s || peekWord "for" s || peekWord "loop" s ||
      peekWord "match" s then blockLike g
  else if peekWord "yield" s then
    other do
      word "yield"
      optionalValue g true
  else if peekWord "unsafe" s || peekWord "const" s || peekGroup .brace s then
    blockLike g
  else if peekOp ".." s then
    let closed ← rangeLimits
    rangeEnd g closed allowStruct
    pure .range
  else if peekWord "_" s then other (word "_")
  else if peekLifetime s then blockLike g
  else fail

/-- A number after a dot: the index of a tuple field, or two or three of them with points. -/
def isIndexText (text : String) : Bool := text.toList.all fun c => c.isDigit || c == '.'

/-- Calls, fields, method calls, indices and `?` after an operand. -/
def trailers (g : Grammar) (kind : ExprKind) : Parser ExprKind := fun s =>
  let rec go (kind : ExprKind) : Nat → Parser ExprKind
    | 0 => fail
    | fuel + 1 => do
      let s ← rest
      if peekGroup .parenthesis s then
        parens (exprList g)
        go .other fuel
      else if peekOp "." s && !peekOp ".." s && kind != .range then
        op "."
        let s ← rest
        match s with
        | .literal text :: _ =>
          guard (isIndexText text)
          lit
          go .other fuel
        | _ =>
          if ← wordIf "await" then go .other fuel
          else
            skip ident
            let s ← rest
            if peekOp "::" s then
              turbofish g
              parens (exprList g)
            else if peekGroup .parenthesis s then parens (exprList g)
            go .other fuel
      else if peekGroup .bracket s then
        skip <| brackets (g.expr true)
        go .other fuel
      else if peekOp "?" s && kind != .range then
        op "?"
        go .other fuel
      else pure kind
  go kind (s.length + 1) s

/-- An expression whose block-like beginning ends it unless a method call, a field or `?` follows.
-/
def statementExprStep (g : Grammar) : Parser ExprKind := do
  skip (outerAttributes g)
  let s ← rest
  if startsBlockLike s then
    let first ← blockLike g
    let s ← rest
    if (peekOp "." s && !peekOp ".." s) || peekOp "?" s then
      let kind ← trailers g first
      g.operators true .lowest kind
    else pure first
  else
    let first ← g.operand true
    g.operators true .lowest first

/-- Operators of at least some precedence behind an operand.  A range is the left side of none. -/
def operatorsStep (g : Grammar) (allowStruct : Bool) (base : Precedence)
    (left : ExprKind) : Parser ExprKind := do
  let s ← rest
  let rec go (left : ExprKind) : Nat → Parser ExprKind
    | 0 => fail
    | fuel + 1 => do
      let s ← rest
      if left == .range then pure left else
      match binaryOperator? s with
      | some (text, precedence) =>
        if base ≤ precedence then
          guard (!(precedence == .compare && left == .comparison))
          op text
          rightSide g allowStruct precedence
          go (if precedence == .compare then .comparison else .other) fuel
        else pure left
      | none =>
        if base ≤ .assign && peekOp "=" s && !peekOp "=>" s then
          op "="
          rightSide g allowStruct .assign
          go .other fuel
        else if base ≤ .range && peekOp ".." s then
          let closed ← rangeLimits
          rangeEnd g closed allowStruct
          go .range fuel
        else if base ≤ .cast && peekWord "as" s then
          word "as"
          skip (g.type false)
          guard (!(← sees followsCast))
          go .other fuel
        else pure left
  go left (s.length + 1)

def operandStep (g : Grammar) (allowStruct : Bool) : Parser ExprKind := do
  let attributes ← outerAttributes g
  let s ← rest
  if peekOp "&" s then
    op "&"
    let s ← rest
    if peekWord "raw" s && (peek2 (peekWord "mut") s || peek2 (peekWord "const") s) then
      word "raw"
      if ← sees (peekWord "mut") then word "mut" else word "const"
    else skip (wordIf "mut")
    skip (g.operand allowStruct)
    pure .other
  else if peekOp "*" s || peekOp "!" s || peekOp "-" s then
    if peekOp "*" s then op "*" else if peekOp "!" s then op "!" else op "-"
    skip (g.operand allowStruct)
    pure .other
  else
    let first ← atom g allowStruct
    let kind ← trailers g first
    guard (attributes.isEmpty || kind != .range)
    pure kind

def exprStep (g : Grammar) (allowStruct : Bool) : Parser ExprKind := do
  let first ← g.operand allowStruct
  g.operators allowStruct .lowest first

end TraitClient.Source.Parser
