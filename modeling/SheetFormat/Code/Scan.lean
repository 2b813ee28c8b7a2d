import SheetFormat.Code.Token

/-! The tokens of a code from left to right. What is dangling or not terminated is a literal, or
runs to the end of the code. -/

namespace SheetFormat

def DateLetter.char : DateLetter → Char
  | year => 'y'
  | month => 'm'
  | day => 'd'
  | hour => 'h'
  | second => 's'

def DateLetter.ofChar? (c : Char) : Option DateLetter :=
  [year, month, day, hour, second].find? fun l => l.char = c.toLower

namespace Token

def ofChar? : Char → Option Token
  | '0' => some (.placeholder .zero)
  | '#' => some (.placeholder .hash)
  | '?' => some (.placeholder .question)
  | '.' => some .point
  | ',' => some .comma
  | ';' => some .separator
  | '/' => some .slash
  | '%' => some .percent
  | '@' => some .textMark
  | _ => none

def upTo (close : Char) (t : Text) : Text × Text :=
  (t.takeWhile (· != close), (t.dropWhile (· != close)).drop 1)

def withNext (dangling : Token) (make : Char → Token) : Text → Token × Text
  | [] => (dangling, [])
  | c :: rest => (make c, rest)

def scanExponent (c : Char) : Text → Token × Text
  | '+' :: rest => (.exponent ⟨c = 'E', true⟩, rest)
  | '-' :: rest => (.exponent ⟨c = 'E', false⟩, rest)
  | rest => (.literal c, rest)

def startsWith (word code : Text) : Bool := Text.folded (code.take word.length) = word

def scanWord (c : Char) (rest : Text) : Token × Text :=
  let code := c :: rest
  if startsWith "general".toList code then (.general, code.drop 7)
  else if startsWith "am/pm".toList code then (.halfDay (code.take 5), code.drop 5)
  else if startsWith "a/p".toList code then (.halfDay (code.take 3), code.drop 3)
  else
    match DateLetter.ofChar? c with
    | some l =>
      let run := rest.takeWhile (·.toLower == l.char)
      (.letters l (run.length + 1), rest.drop run.length)
    | none => (.literal c, rest)

def scan (c : Char) (rest : Text) : Token × Text :=
  if c = '"' then
    let (t, after) := upTo '"' rest
    (.quoted t, after)
  else if c = '[' ∧ ']' ∈ rest then
    let (t, after) := upTo ']' rest
    (.bracket t, after)
  else if c = '\\' then withNext (.literal '\\') .escaped rest
  else if c = '_' then withNext (.skip ' ') .skip rest
  else if c = '*' then withNext (.skip ' ') .fill rest
  else if c = 'E' ∨ c = 'e' then scanExponent c rest
  else
    match ofChar? c with
    | some t => (t, rest)
    | none => scanWord c rest

theorem length_withNext_le (d : Token) (f : Char → Token) (t : Text) :
    (withNext d f t).2.length ≤ t.length := by
  cases t <;> simp [withNext]

theorem length_upTo_le (close : Char) (t : Text) : (upTo close t).2.length ≤ t.length := by
  have h := (List.dropWhile_suffix (l := t) (· != close)).length_le
  simp only [upTo, List.length_drop]
  omega

theorem length_scanExponent_le (c : Char) (t : Text) :
    (scanExponent c t).2.length ≤ t.length := by
  unfold scanExponent
  split <;> simp

theorem length_scanWord_le (c : Char) (rest : Text) :
    (scanWord c rest).2.length ≤ rest.length := by
  unfold scanWord
  dsimp only
  repeat' split
  all_goals simp only [List.length_drop, List.length_cons]
  all_goals omega

theorem length_scan_le (c : Char) (rest : Text) : (scan c rest).2.length ≤ rest.length := by
  unfold scan
  dsimp only
  repeat' split
  · exact length_upTo_le _ _
  · exact length_upTo_le _ _
  · exact length_withNext_le _ _ _
  · exact length_withNext_le _ _ _
  · exact length_withNext_le _ _ _
  · exact length_scanExponent_le _ _
  · exact Nat.le_refl _
  · exact length_scanWord_le _ _

end Token

structure Cursor where
  rest : Text
  position : Nat

namespace Cursor

def next (k : Cursor) : Lexeme × Cursor :=
  match k.rest with
  | [] => (⟨.eof, k.position, k.position⟩, k)
  | c :: t =>
    let (token, rest) := Token.scan c t
    let stop := k.position + (Text.byteSize k.rest - Text.byteSize rest)
    (⟨token, k.position, stop⟩, ⟨rest, stop⟩)

def reads : Nat → Cursor → List Lexeme
  | 0, _ => []
  | count + 1, k => k.next.1 :: reads count k.next.2

theorem length_next_lt {k : Cursor} (h : k.rest ≠ []) :
    k.next.2.rest.length < k.rest.length := by
  rcases k with ⟨_ | ⟨c, t⟩, p⟩
  · simp at h
  · have := Token.length_scan_le c t
    simp only [next, List.length_cons]
    omega

def lexemes (k : Cursor) : List Lexeme :=
  if _h : k.rest = [] then [k.next.1]
  else k.next.1 :: lexemes k.next.2
termination_by k.rest.length
decreasing_by exact length_next_lt _h

end Cursor

def tokenize (code : Text) : List Lexeme := Cursor.lexemes ⟨code, 0⟩

end SheetFormat
