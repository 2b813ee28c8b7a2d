import SheetFormat.Checked.Render
import SheetFormat.Proofs.Checked.Digits
import SheetFormat.Proofs.Checked.General

namespace SheetFormat.Checked

lemma cutBehindFields_ok (l : NumberLayout) :
    cutBehindFields l.wholeParts = .ok (l.front, l.behind) := by
  rw [cutBehindFields, NumberLayout.front, NumberLayout.behind]
  rcases lastIndex?_cases Part.isField l.wholeParts with ⟨hn, hp⟩ | ⟨u, a, v, hw, hi, ha, hv⟩
  · have hf : ¬l.wholeParts.any Part.isField = true := by simpa using hp
    rw [hn, if_neg hf, if_neg hf]
    rfl
  · have hf : l.wholeParts.any Part.isField = true := List.any_eq_true.2 ⟨a, by simp [hw], ha⟩
    have hn : ∀ p ∈ v.reverse, (!p.isField) = true := by
      intro p hp
      rw [hv p (List.mem_reverse.1 hp)]
      rfl
    have hs := splitOff_append (u ++ [a]) v
    rw [List.length_append, List.append_assoc] at hs
    rw [hi, if_pos hf, if_pos hf, hw, List.reverse_append, List.reverse_cons, List.append_assoc,
      List.dropWhile_append_of_pos hn, List.takeWhile_append_of_pos hn]
    refine hs.trans ?_
    simp [ha]

lemma separateThousands_ok (l : NumberLayout) (locale : Locale) (shown : Text) :
    separateThousands l locale shown = .ok (l.separate locale shown) := by
  rw [separateThousands, NumberLayout.separate]
  by_cases hg : l.scaling.grouped = true
  · rw [if_pos hg, if_pos hg]
    exact groupThousands_ok ..
  · rw [if_neg hg, if_neg hg]
    rfl

lemma grouped_ok (l : NumberLayout) (locale : Locale) (general digits : Text) :
    grouped l locale general digits = .ok (l.grouped locale general digits) := by
  refine (bind_ok (cutBehindFields_ok l) _).trans ?_
  simp only [spread_ok, separateThousands_ok, ok_bind]
  rfl

lemma positional_ok (l : NumberLayout) (locale : Locale) (general : Text) {x : Binary64}
    (hx : x.Unsigned) : positional l locale general x = .ok (l.positional locale general x) := by
  refine (bind_ok (splitRounded_ok hx l.places) _).trans ?_
  exact bind_ok (grouped_ok ..) _

lemma exponential_ok (l : NumberLayout) (locale : Locale) (mark : ExponentMark)
    (parts : List NumberPart) {x : Binary64} (hx : x.Unsigned) :
    exponential l locale mark parts x = .ok (l.scientific locale mark parts x) := by
  refine (bind_ok (scientific_ok hx.reduced l.places) _).trans ?_
  simp only [spread_ok, ok_bind]
  rfl

lemma renderNumber_ok (l : NumberLayout) (locale : Locale) {x : Binary64}
    (hx : x.Unsigned) : renderNumber l locale x = .ok (l.render locale x) := by
  have hs := l.scaling.unsigned_apply hx
  rw [renderNumber, NumberLayout.render]
  cases l.exponent with
  | some e => exact exponential_ok l locale e.1 e.2 hs
  | none => exact (bind_ok (generalText_ok x) _).trans (positional_ok l locale _ hs)

end SheetFormat.Checked
