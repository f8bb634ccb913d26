import LispScript.Fault

/-!
Reports: a failure as it is shown to the user, with the lines around it and carets below the place.
A report is made of pieces of text and changes of style, so that it can be looked at with and
without its own styling.
-/

namespace LispScript

inductive Style where
  | bold
  | dim
  | red
  | blue
  | plain
  deriving DecidableEq, Repr

def Style.sequence : Style → String
  | bold => "\x1b[1m"
  | dim => "\x1b[2m"
  | red => "\x1b[31m"
  | blue => "\x1b[34m"
  | plain => "\x1b[0m"

inductive Span where
  | style (s : Style)
  | text (t : Text)
  deriving DecidableEq

namespace Span

def ofString (s : String) : Span :=
  text (Text.ofString s)

def styled : Span → Text
  | style s => Text.ofString s.sequence
  | text t => t

def unstyled : Span → Text
  | style _ => []
  | text t => t

end Span

namespace Report

def numberWidth : Nat := 3

def padLeft (width : Nat) (s : String) : String :=
  String.ofList (List.replicate (width - s.length) ' ') ++ s

def contextLines : Int := 2

def rule : List Span :=
  [.ofString " ", .style .dim, .ofString (padLeft numberWidth ""), .ofString " |", .style .plain,
    .ofString "\n"]

def contextLine (number : Int) (line : Text) : List Span :=
  [.ofString " ", .style .dim, .ofString (padLeft numberWidth (toString number)), .ofString " | ",
    .text line, .style .plain, .ofString "\n"]

def markedLine (l : Location) (line : Text) : List Span :=
  let padding := (1 + numberWidth + 3 + l.column - 1).toNat
  let carets := max 1 l.length.toNat
  [.ofString " ", .style .dim, .style .blue, .style .bold,
    .ofString (padLeft numberWidth (toString l.line)), .ofString " | ", .style .plain,
    .text line, .ofString "\n",
    .style .dim, .text (List.replicate padding (.char ' ')), .style .red,
    .text (List.replicate carets (.char '^')), .style .plain, .ofString "\n"]

def excerpt (message : String) (l : Location) (lines : List Text) : List Span :=
  let first := max 1 (l.line - contextLines)
  let last := min (lines.length : Int) (l.line + contextLines)
  let shown := (lines.drop (first - 1).toNat).take (last - first + 1).toNat
  let numbered := shown.zipIdx.map fun (line, i) => (first + i, line)
  [.style .bold, .style .red, .ofString "Error:", .style .plain, .ofString s!" {message}\n",
    .ofString "  ", .style .dim, .style .blue, .ofString s!"--> {l.text}", .style .plain,
    .ofString "\n"] ++
  rule ++
  (numbered.flatMap fun (n, line) =>
    if n = l.line then markedLine l line else contextLine n line) ++
  rule

/--
The report of a fault at a place in a source. Without that place there is only the message.
-/
def spans (message : String) (location : Option Location) (source : Text) : List Span :=
  match location with
  | none => [.ofString message]
  | some l =>
    let lines := source.splitLines
    if 1 ≤ l.line ∧ l.line ≤ lines.length then excerpt message l lines else [.ofString message]

def render (spans : List Span) : Text :=
  spans.flatMap Span.styled

end Report

namespace Failure

/--
The file whose text a report needs because the failure does not hold its source.
-/
def missingSource? (f : Failure) : Option String :=
  match f.origin with
  | some { location := some l, source := [] } => if l.file = "" then none else some l.file
  | _ => none

def spans (f : Failure) (source : Text) : List Span :=
  match f.origin with
  | some o => Report.spans f.message o.location source
  | none => [.ofString f.message]

def source (f : Failure) : Text :=
  (f.origin.map Origin.source).getD []

end Failure

end LispScript
