/-! Texts as lists of characters, with offsets counted in UTF-8 bytes. -/

namespace SheetFormat

abbrev Text := List Char

namespace Text

def byteSize : Text → Nat
  | [] => 0
  | c :: t => c.utf8Size + byteSize t

@[simp] theorem byteSize_nil : byteSize [] = 0 := rfl

@[simp] theorem byteSize_cons (c : Char) (t : Text) :
    byteSize (c :: t) = c.utf8Size + byteSize t := rfl

@[simp] theorem byteSize_append (s t : Text) : byteSize (s ++ t) = byteSize s + byteSize t := by
  induction s with
  | nil => simp
  | cons c s ih => simp [ih, Nat.add_assoc]

/-- The ranges of the characters with the Unicode property `White_Space`. -/
def blankRanges : List (Nat × Nat) :=
  [(0x09, 0x0d), (0x20, 0x20), (0x85, 0x85), (0xa0, 0xa0), (0x1680, 0x1680), (0x2000, 0x200a),
    (0x2028, 0x2029), (0x202f, 0x202f), (0x205f, 0x205f), (0x3000, 0x3000)]

def isBlank (c : Char) : Bool := blankRanges.any fun r => r.1 ≤ c.toNat && c.toNat ≤ r.2

def trimmed (t : Text) : Text := ((t.dropWhile isBlank).reverse.dropWhile isBlank).reverse

def folded (t : Text) : Text := t.map Char.toLower

def takeBytes? : Nat → Text → Option Text
  | 0, _ => some []
  | _ + 1, [] => none
  | n + 1, c :: t =>
    if c.utf8Size ≤ n + 1 then (takeBytes? (n + 1 - c.utf8Size) t).map (c :: ·) else none

theorem byteSize_of_takeBytes? {n : Nat} {t s : Text} (h : takeBytes? n t = some s) :
    byteSize s = n := by
  induction t generalizing n s with
  | nil => cases n <;> simp_all [takeBytes?]
  | cons c t ih =>
    cases n with
    | zero => simp_all [takeBytes?]
    | succ n =>
      simp only [takeBytes?] at h
      split at h
      · obtain ⟨r, hr, rfl⟩ := Option.map_eq_some_iff.1 h
        have := ih hr
        simp only [byteSize_cons]
        omega
      · simp at h

/-- The first `n` bytes, or the whole text where they are no text. -/
def abbreviated (n : Nat) (t : Text) : Text := (takeBytes? n t).getD t

end Text

end SheetFormat
