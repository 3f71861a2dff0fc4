/-!
# Documents with boxes

A document is text with places where a line may end, grouped in boxes.  A box that does not fit on
its line is broken: in a consistent box every place ends the line, in an inconsistent one only a
place whose next stretch does not fit.
-/
namespace TraitClient.Layout

/-- A place where a line may end.  Where it does not, `blank` spaces stand instead. -/
structure Break where
  blank : Nat := 0
  /-- Added to the indentation of the box. -/
  offset : Int := 0
  /-- Written at the end of the broken line. -/
  before : String := ""
  /-- Written at the start of the next line. -/
  after : String := ""
  /-- Never ends a line, but ends the stretch before it. -/
  never : Bool := false
  /-- At the end of a box it only ends the stretch before it. -/
  ifNonempty : Bool := false
  deriving Repr

inductive Doc
  | empty
  | text (s : String)
  | line (b : Break)
  | append (first second : Doc)
  | box (consistent : Bool) (offset : Int) (body : Doc)

namespace Doc

instance : Append Doc := ⟨append⟩

instance : Coe String Doc := ⟨text⟩

def concat : List Doc → Doc
  | [] => empty
  | d :: ds => d ++ concat ds

def allOrNone (offset : Int) (body : Doc) : Doc := box true offset body

def fill (offset : Int) (body : Doc) : Doc := box false offset body

def unfitting : Nat := 0xffff

def zeroBreak : Doc := line {}
def space : Doc := line { blank := 1 }
def hardBreak : Doc := line { blank := unfitting }
def neverBreak : Doc := line { never := true }

end Doc

/-! ## Pieces -/

/-- A document in the order in which it is printed. -/
inductive Piece
  | text (s : String)
  | line (b : Break)
  | enter (consistent : Bool) (offset : Int)
  | leave

def Doc.pieces : Doc → List Piece → List Piece
  | .empty, rest => rest
  | .text s, rest => .text s :: rest
  | .line b, rest => .line b :: rest
  | .append a b, rest => a.pieces (b.pieces rest)
  | .box consistent offset body, rest => .enter consistent offset :: body.pieces (.leave :: rest)

/-- Adds a piece to reversed ones.  A box that holds a single break vanishes, and a break that counts
only in a box with content never ends a line at the end of a box. -/
def pushPiece (done : List Piece) (p : Piece) : List Piece :=
  match p, done with
  | .leave, .line _ :: .enter _ _ :: rest => rest
  | .leave, .line b :: rest =>
    .leave :: .line (if b.ifNonempty then { never := true } else b) :: rest
  | p, done => p :: done

def tidy (pieces : List Piece) : List Piece := (pieces.foldl pushPiece []).reverse

def Piece.width : Piece → Nat
  | .text s => s.utf8ByteSize
  | .line b => b.blank
  | _ => 0

/-! ## Widths -/

/-- A piece with the width up to the break that decides about it: for a break the next one in its
box or behind it, for a box the first break behind it that is in no later box. -/
structure Measured where
  piece : Piece
  width : Nat

/-- Measures from the right.  `position` is where the piece after this one starts, `next` has for
each box around it where the deciding break starts. -/
def measureFrom : List Piece → Nat → List Nat → List Measured → List Measured
  | [], _, _, done => done
  | p :: rest, position, next, done =>
    let start := position - p.width
    let decided := next.headD 0
    match p with
    | .text _ => measureFrom rest start next (⟨p, p.width⟩ :: done)
    | .line _ => measureFrom rest start (start :: next.tail) (⟨p, decided - start⟩ :: done)
    | .leave => measureFrom rest start (decided :: next) (⟨p, 0⟩ :: done)
    | .enter _ _ =>
      let outer := next.tail
      measureFrom rest start outer (⟨p, outer.headD 0 - start⟩ :: done)

def measure (pieces : List Piece) : List Measured :=
  let total := pieces.foldl (fun n p => n + p.width) 0
  measureFrom pieces.reverse total [total] []

/-! ## Printing -/

/-- The width of a page, and the width that is left on a line however far it is indented. -/
structure Page where
  width : Int
  least : Int

inductive Frame
  | fits
  | broken (outerIndent : Int) (consistent : Bool)

structure Printer where
  /-- Reversed. -/
  out : List String
  pending : Nat
  indent : Int
  space : Int
  stack : List Frame

namespace Printer

def blanks (n : Nat) : String := String.ofList (List.replicate n ' ')

def write (p : Printer) (s : String) : Printer :=
  { p with out := s :: blanks p.pending :: p.out, pending := 0 }

def lineFits (p : Printer) (b : Break) (width : Nat) : Bool :=
  b.never ||
    match p.stack with
    | [] => width ≤ p.space
    | .fits :: _ => true
    | .broken _ consistent :: _ => !consistent && width ≤ p.space

def step (page : Page) (p : Printer) (m : Measured) : Printer :=
  match m.piece with
  | .text s => { p.write s with space := p.space - s.utf8ByteSize }
  | .enter consistent offset =>
    if m.width > p.space then
      { p with stack := .broken p.indent consistent :: p.stack, indent := p.indent + offset }
    else { p with stack := .fits :: p.stack }
  | .leave =>
    match p.stack with
    | .broken outer _ :: rest => { p with stack := rest, indent := outer }
    | _ :: rest => { p with stack := rest }
    | [] => p
  | .line b =>
    if p.lineFits b m.width then
      { p with pending := p.pending + b.blank, space := p.space - b.blank }
    else
      let p := if b.before.isEmpty then p else p.write b.before
      let indent := p.indent + b.offset
      let p :=
        { p with
          out := "\n" :: p.out
          pending := indent.toNat
          space := max (page.width - indent) page.least }
      if b.after.isEmpty then p
      else { p.write b.after with space := p.space - b.after.utf8ByteSize }

end Printer

def Doc.render (page : Page) (d : Doc) : String :=
  let start : Printer := { out := [], pending := 0, indent := 0, space := page.width, stack := [] }
  let done := (measure (tidy (d.pieces []))).foldl (Printer.step page) start
  String.join done.out.reverse

end TraitClient.Layout
