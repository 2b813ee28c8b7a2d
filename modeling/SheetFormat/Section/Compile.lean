import SheetFormat.Section.Comma
import SheetFormat.Section.Dated
import SheetFormat.Section.Fraction

/-! The section of a list of tokens: General if the keyword occurs, a date if a date element
occurs, else a fraction or a number. -/

namespace SheetFormat

namespace Body

def ofMarks (marks : List Mark) : Body :=
  match FractionLayout.ofMarks? marks with
  | some layout => .fraction layout
  | none => .number (.ofMarks marks)

def ofElements (elements : List Element) : Body :=
  if elements.any Element.isDate then .date (datePartsOf elements)
  else ofMarks (elements.filterMap Element.mark?)

def ofTokens (tokens : List Token) : Body :=
  if .general ∈ tokens then .general else ofElements (tokens.flatMap Element.ofToken)

end Body

def Token.color? : Token → Option Color
  | bracket t =>
    match Bracket.ofText t with
    | .color c => some c
    | _ => none
  | _ => none

namespace Section

def ofTokens (tokens : List Token) : Section :=
  ⟨.ofTokens tokens, (tokens.filterMap Token.color?).getLast?⟩

end Section

end SheetFormat
