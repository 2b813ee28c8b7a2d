import SheetFormat.Builtin
import SheetFormat.Cache
import SheetFormat.Checked.Render
import SheetFormat.Value
import SheetFormat.Proofs.Calendar.Date
import SheetFormat.Proofs.Calendar.EndOfDay
import SheetFormat.Proofs.Calendar.Instants
import SheetFormat.Proofs.Calendar.Rollover
import SheetFormat.Proofs.Calendar.Serial
import SheetFormat.Proofs.Calendar.Shown
import SheetFormat.Proofs.Calendar.Start
import SheetFormat.Proofs.Calendar.Systems
import SheetFormat.Proofs.Calendar.Timestamp
import SheetFormat.Proofs.Calendar.Weekday
import SheetFormat.Proofs.Checked.HalfUp
import SheetFormat.Proofs.Checked.Render
import SheetFormat.Proofs.Code.Hidden
import SheetFormat.Proofs.Code.Numeral
import SheetFormat.Proofs.Code.Spelling
import SheetFormat.Proofs.Code.Tiling
import SheetFormat.Proofs.Code.Variation
import SheetFormat.Proofs.Format.GivenDenominator
import SheetFormat.Proofs.Format.Independence
import SheetFormat.Proofs.Format.Insertion
import SheetFormat.Proofs.Format.Variation
import SheetFormat.Proofs.Number.Bounds
import SheetFormat.Proofs.Number.Decimal
import SheetFormat.Proofs.Number.Error
import SheetFormat.Proofs.Number.Order
import SheetFormat.Proofs.Number.Overflow
import SheetFormat.Proofs.Number.Parts
import SheetFormat.Proofs.Number.Product
import SheetFormat.Proofs.Number.Scientific
import SheetFormat.Proofs.Number.Shortest
import SheetFormat.Proofs.Number.Sum
import SheetFormat.Proofs.Number.Unsigned
import SheetFormat.Proofs.Number.Whole
import SheetFormat.Proofs.Render.Alignment
import SheetFormat.Proofs.Render.Approximation
import SheetFormat.Proofs.Render.Closest
import SheetFormat.Proofs.Render.Color
import SheetFormat.Proofs.Render.Convergents
import SheetFormat.Proofs.Render.Digits
import SheetFormat.Proofs.Render.Dispatch
import SheetFormat.Proofs.Render.Elapsed
import SheetFormat.Proofs.Render.Failure
import SheetFormat.Proofs.Render.Finite
import SheetFormat.Proofs.Render.Fixed
import SheetFormat.Proofs.Render.General
import SheetFormat.Proofs.Render.Grouping
import SheetFormat.Proofs.Render.Improper
import SheetFormat.Proofs.Render.Integers
import SheetFormat.Proofs.Render.LastDay
import SheetFormat.Proofs.Render.LowestTerms
import SheetFormat.Proofs.Render.Mixed
import SheetFormat.Proofs.Render.Names
import SheetFormat.Proofs.Render.Pieces
import SheetFormat.Proofs.Render.Placeholders
import SheetFormat.Proofs.Render.Scientific
import SheetFormat.Proofs.Render.Substitution
import SheetFormat.Proofs.Render.Systems
import SheetFormat.Proofs.Render.TextPlaces
import SheetFormat.Proofs.Render.Thousands
import SheetFormat.Proofs.Render.Value
import SheetFormat.Proofs.Render.WholeDigits
import SheetFormat.Proofs.Render.WholePart
import SheetFormat.Proofs.Section.Bar
import SheetFormat.Proofs.Section.Carried
import SheetFormat.Proofs.Section.Commas
import SheetFormat.Proofs.Section.Dated
import SheetFormat.Proofs.Section.Fraction
import SheetFormat.Proofs.Section.Images
import SheetFormat.Proofs.Section.Kinds
import SheetFormat.Proofs.Session
import SheetFormat.Proofs.Session.Run
import SheetFormat.Proofs.Text.Canonical
import SheetFormat.Proofs.Text.Decimal
import SheetFormat.Proofs.Text.Digits
import SheetFormat.Proofs.Text.NumericLiteral
