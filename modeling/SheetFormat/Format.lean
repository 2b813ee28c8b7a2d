import SheetFormat.Code.Scan
import SheetFormat.Section.Compile

/-! Number formats: a code and its one to four compiled sections. -/

namespace SheetFormat

structure NumberFormat where
  source : Text
  sections : List Section
  nonempty : sections ≠ []
  atMostFour : sections.length ≤ 4
  deriving DecidableEq

namespace NumberFormat

def ofSections (source : Text) (sections : List Section) : NumberFormat :=
  match sections with
  | [] => ⟨source, [.general], by simp, by simp⟩
  | s :: rest => ⟨source, (s :: rest).take 4, by simp, List.length_take_le 4 _⟩

def tokenGroups (code : Text) : List (List Token) :=
  (((tokenize code).map Lexeme.token).filter (· ≠ .eof)).splitOn .separator

def parse (code : Text) : NumberFormat :=
  ofSections code (if code.isEmpty then [] else (tokenGroups code).map .ofTokens)

theorem sections_of_ne_nil {code : Text} (h : code ≠ []) :
    (parse code).sections = ((tokenGroups code).map Section.ofTokens).take 4 := by
  have hi : code.isEmpty = false := by simpa using h
  have hg : tokenGroups code ≠ [] := List.splitOn_ne_nil _ _
  obtain ⟨g, gs, hgs⟩ := List.exists_cons_of_ne_nil hg
  rw [parse, hi, hgs]
  rfl

def isGeneral (f : NumberFormat) : Bool :=
  match f.sections with
  | [s] => s.isGeneral
  | _ => false

def isDateFormat (f : NumberFormat) : Bool := f.sections.any Section.isDate

def isTextFormat (f : NumberFormat) : Bool :=
  match f.sections with
  | [s] => s.hasTextPlaceholder
  | _ => false

def isPercentage (f : NumberFormat) : Bool := f.sections.any Section.isPercent

def hasColor (f : NumberFormat) : Bool := f.sections.any (·.color.isSome)

end NumberFormat

end SheetFormat
