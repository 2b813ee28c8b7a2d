import Mathlib.Order.Bounds.Defs
import SheetFormat.Format
import SheetFormat.Proofs.Section.Dated
import SheetFormat.Proofs.Section.Fraction

namespace SheetFormat

abbrev AnyPart := Part (Placeholder ⊕ DateField)

def Part.map {α β : Type} (f : α → β) : Part α → Part β
  | literal c => literal c
  | currency symbol => currency symbol
  | text => text
  | field a => field (f a)

def digitParts (parts : List NumberPart) : List AnyPart := parts.map (Part.map .inl)

def dateFieldParts (parts : List DatePart) : List AnyPart := parts.map (Part.map .inr)

inductive DenominatorRecord where
  | upToDigits (digits : Nat)
  | fixed (value : Nat)

structure FractionRecord where
  numerator : List Placeholder
  denominator : DenominatorRecord
  denominatorDigits : List Placeholder
  suffix : List AnyPart

/-- The features of a section of any kind, each with the value it has where it is absent. -/
structure SectionRecord where
  whole : List AnyPart := []
  fractional : List AnyPart := []
  exponent : List AnyPart := []
  hasPoint : Bool := false
  isPercent : Bool := false
  isGrouped : Bool := false
  thousands : Nat := 0
  isGeneral : Bool := false
  exponential : Option ExponentMark := none
  fraction : Option FractionRecord := none
  isDate : Bool := false
  hasHalfDay : Bool := false
  subsecondDigits : Nat := 0
  color : Option Color := none

def FractionLayout.record (l : FractionLayout) : FractionRecord where
  numerator := l.numerator
  denominator :=
    match l.denominator with
    | .bestFit placeholders => .upToDigits (Denominator.digits placeholders)
    | .fixed value => .fixed value
  denominatorDigits :=
    match l.denominator with
    | .bestFit placeholders => placeholders
    | .fixed _ => []
  suffix := digitParts l.suffix

def Section.record (s : Section) : SectionRecord :=
  match s.body with
  | .general => { isGeneral := true, color := s.color }
  | .date parts =>
    { whole := dateFieldParts parts
      isDate := true
      hasHalfDay := hasHalfDay parts
      subsecondDigits := subsecondDigits parts
      color := s.color }
  | .fraction l =>
    { whole := digitParts l.whole
      isPercent := l.scaling.percent
      isGrouped := l.scaling.grouped
      thousands := l.scaling.thousands
      fraction := some l.record
      color := s.color }
  | .number l =>
    { whole := digitParts l.whole
      fractional := digitParts (l.fractional.getD [])
      exponent := digitParts ((l.exponent.map Prod.snd).getD [])
      hasPoint := l.fractional.isSome
      isPercent := l.scaling.percent
      isGrouped := l.scaling.grouped
      thousands := l.scaling.thousands
      exponential := l.exponent.map Prod.fst
      color := s.color }

inductive SectionKind where
  | general
  | date
  | fraction
  | number

namespace SectionRecord

structure FitsGeneral (r : SectionRecord) : Prop where
  others : r = { isGeneral := true, color := r.color }

structure FitsDate (r : SectionRecord) : Prop where
  others : r =
    { whole := r.whole
      isDate := true
      hasHalfDay := r.hasHalfDay
      subsecondDigits := r.subsecondDigits
      color := r.color }
  field : ∃ f, .field (.inr f) ∈ r.whole
  digit : ∀ p, .field (.inl p) ∉ r.whole
  halfDay : r.hasHalfDay = true ↔ ∃ style, .field (.inr (.halfDay style)) ∈ r.whole
  subsecond : ∀ front d back, r.whole = front ++ .field (.inr (.subsecond d)) :: back →
    (1 ≤ d ∧ d ≤ 3) ∧ ∃ f, front.getLast? = some (.field (.inr f)) ∧ f.isSecond = true
  finest : IsGreatest {d | d = 0 ∨ .field (.inr (.subsecond d)) ∈ r.whole} r.subsecondDigits

structure FitsFraction (r : SectionRecord) (f : FractionRecord) : Prop where
  others : r =
    { whole := r.whole
      isPercent := r.isPercent
      isGrouped := r.isGrouped
      thousands := r.thousands
      fraction := some f
      color := r.color }
  numerator : f.numerator ≠ []
  denominator : (f.denominator = .upToDigits (min 9 f.denominatorDigits.length) ∧
      1 ≤ min 9 f.denominatorDigits.length) ∨
    ∃ value, f.denominator = .fixed value ∧ 1 ≤ value ∧ value ≤ Denominator.largest ∧
      f.denominatorDigits = []
  field : ∀ d, .field (.inr d) ∉ r.whole ++ f.suffix
  thousands : r.thousands ≤ 255

structure FitsNumber (r : SectionRecord) : Prop where
  others : r =
    { r with
      isGeneral := false
      fraction := none
      isDate := false
      hasHalfDay := false
      subsecondDigits := 0 }
  fractional : r.hasPoint = false → r.fractional = []
  exponent : r.exponential = none → r.exponent = []
  field : ∀ d, .field (.inr d) ∉ r.whole ++ r.fractional ++ r.exponent
  thousands : r.thousands ≤ 255

def Fits (r : SectionRecord) : SectionKind → Prop
  | .general => r.FitsGeneral
  | .date => r.FitsDate
  | .fraction => ∃ f, r.FitsFraction f
  | .number => r.FitsNumber

def kind (r : SectionRecord) : SectionKind :=
  if r.isGeneral then .general
  else if r.isDate then .date
  else if r.fraction.isSome then .fraction
  else .number

lemma Fits.eq_kind {r : SectionRecord} {k : SectionKind} (h : r.Fits k) : k = r.kind := by
  cases k with
  | general => rw [h.others]; rfl
  | date => rw [h.others]; rfl
  | fraction =>
    obtain ⟨f, hf⟩ := h
    rw [hf.others]
    rfl
  | number => rw [h.others]; rfl

end SectionRecord

lemma field_inr_notMem_digitParts (parts : List NumberPart) (d : DateField) :
    .field (.inr d) ∉ digitParts parts := by
  intro h
  obtain ⟨p, -, hp⟩ := List.mem_map.1 h
  cases p <;> simp [Part.map] at hp

lemma field_inl_notMem_dateFieldParts (parts : List DatePart) (p : Placeholder) :
    .field (.inl p) ∉ dateFieldParts parts := by
  intro h
  obtain ⟨q, -, hq⟩ := List.mem_map.1 h
  cases q <;> simp [Part.map] at hq

lemma Part.map_eq_field {f : DateField} {p : DatePart}
    (h : p.map Sum.inr = (.field (.inr f) : AnyPart)) : p = .field f := by
  cases p <;> simp [Part.map] at h
  rw [h]

lemma field_inr_mem_dateFieldParts {parts : List DatePart} {f : DateField} :
    .field (.inr f) ∈ dateFieldParts parts ↔ .field f ∈ parts := by
  constructor
  · intro h
    obtain ⟨p, hp, hf⟩ := List.mem_map.1 h
    rwa [← Part.map_eq_field hf]
  · exact fun h => List.mem_map_of_mem h

def Body.IsProper : Body → Prop
  | .general => True
  | .date parts =>
    (∃ f, Part.field f ∈ parts) ∧ (none :: parts.map some).IsChain FollowsSecond
  | .fraction l => l.IsProper
  | .number l => l.scaling.thousands ≤ 255

lemma Body.ofTokens_isProper (tokens : List Token) : (Body.ofTokens tokens).IsProper := by
  rw [ofTokens]
  split_ifs with hg
  · trivial
  rw [ofElements]
  split_ifs with hd
  · have hw : ∀ e ∈ tokens.flatMap Element.ofToken, e.IsWritten := by
      intro e he
      obtain ⟨t, -, ht⟩ := List.mem_flatMap.1 he
      exact Element.ofToken_isWritten t e ht
    have h0 : ∀ e ∈ (tokens.flatMap Element.ofToken).take 0, e.isZero = true := by simp
    refine ⟨Element.exists_field_resolve h0 (List.any_eq_true.1 hd), ?_⟩
    exact Element.resolve_chain hw h0 (by simp)
  · rw [ofMarks]
    split
    next l hl => exact FractionLayout.ofMarks?_isProper hl
    next => exact Nat.min_le_left ..

lemma subsecondDigits_isGreatest {parts : List DatePart} :
    IsGreatest {d | d = 0 ∨ Part.field (.subsecond d) ∈ parts} (subsecondDigits parts) := by
  obtain ⟨-, hle, he⟩ := foldl_max_subsecondDigits (dateFields parts) 0
  constructor
  · rcases he with he | ⟨f, hf, he⟩
    · exact .inl he
    · cases f with
      | subsecond d =>
        right
        rw [subsecondDigits, he]
        exact mem_dateFields.1 hf
      | _ => exact .inl he
  · rintro d (rfl | hd)
    · exact Nat.zero_le _
    · exact hle _ (mem_dateFields.2 hd)

lemma subsecond_follows {front back : List DatePart} {d : Nat}
    (hc : (none :: (front ++ .field (.subsecond d) :: back).map some).IsChain FollowsSecond) :
    (1 ≤ d ∧ d ≤ 3) ∧ ∃ f, front.getLast? = some (.field f) ∧ f.isSecond = true := by
  rcases List.eq_nil_or_concat front with rfl | ⟨front, p, rfl⟩
  · obtain ⟨-, f, hf, -⟩ := (List.isChain_cons_cons.1 hc).1 d rfl
    cases hf
  · have hl : ((none :: front.map some) ++ some p :: some (.field (.subsecond d)) ::
        back.map some).IsChain FollowsSecond := by
      simpa using hc
    obtain ⟨-, hp, -⟩ := List.isChain_append_cons_cons.1 hl
    obtain ⟨hd, f, hf, hs⟩ := hp d rfl
    refine ⟨hd, f, ?_, hs⟩
    rw [List.concat_eq_append, List.getLast?_concat, ← hf]

namespace Section

lemma fitsDate {parts : List DatePart} {s : Section} (hs : s.body = .date parts)
    (h : s.body.IsProper) : s.record.FitsDate := by
  rw [hs] at h
  obtain ⟨⟨f, hf⟩, hc⟩ := h
  rw [record, hs]
  refine ⟨rfl, ⟨f, field_inr_mem_dateFieldParts.2 hf⟩, field_inl_notMem_dateFieldParts parts,
    ?_, ?_, ?_⟩
  · simp only [field_inr_mem_dateFieldParts]
    exact hasHalfDay_iff
  · intro front d back hw
    obtain ⟨front, rest, rfl, rfl, hr⟩ := List.map_eq_append_iff.1 hw
    obtain ⟨p, back, rfl, hp, rfl⟩ := List.map_eq_cons_iff.1 hr
    obtain rfl := Part.map_eq_field hp
    obtain ⟨hd, f, hl, hs⟩ := subsecond_follows hc
    refine ⟨hd, f, ?_, hs⟩
    rw [List.getLast?_map, hl]
    rfl
  · simp only [field_inr_mem_dateFieldParts]
    exact subsecondDigits_isGreatest

lemma fitsFraction {l : FractionLayout} {s : Section} (hs : s.body = .fraction l)
    (h : s.body.IsProper) : s.record.FitsFraction l.record := by
  rw [hs] at h
  rw [record, hs]
  refine ⟨rfl, h.numerator, ?_, ?_, h.thousands⟩
  · have hd := h.denominator
    cases hl : l.denominator with
    | bestFit ps =>
      rw [hl] at hd
      left
      simp only [FractionLayout.record, hl, Denominator.digits, Nat.min_comm, true_and]
      have := List.length_pos_of_ne_nil hd
      omega
    | fixed value =>
      rw [hl] at hd
      right
      refine ⟨value, ?_, hd.1, hd.2, ?_⟩ <;> simp only [FractionLayout.record, hl]
  · intro d hd
    rcases List.mem_append.1 hd with hd | hd
    · exact field_inr_notMem_digitParts _ _ hd
    · exact field_inr_notMem_digitParts _ _ hd

lemma fitsNumber {l : NumberLayout} {s : Section} (hs : s.body = .number l)
    (h : s.body.IsProper) : s.record.FitsNumber := by
  rw [hs] at h
  rw [record, hs]
  refine ⟨rfl, ?_, ?_, ?_, h⟩
  · intro hp
    cases hl : l.fractional with
    | none => simp [hl, digitParts]
    | some parts => simp [hl] at hp
  · intro he
    cases hl : l.exponent with
    | none => simp [hl, digitParts]
    | some e => simp [hl] at he
  · intro d hd
    simp only [List.mem_append] at hd
    rcases hd with (hd | hd) | hd <;> exact field_inr_notMem_digitParts _ _ hd

lemma fits_kind {s : Section} (h : s.body.IsProper) : s.record.Fits s.record.kind := by
  cases hs : s.body with
  | general =>
    rw [record, hs]
    exact ⟨rfl⟩
  | date parts =>
    have hk : s.record.kind = .date := by rw [record, hs]; rfl
    rw [hk]
    exact fitsDate hs h
  | fraction l =>
    have hk : s.record.kind = .fraction := by rw [record, hs]; rfl
    rw [hk]
    exact ⟨l.record, fitsFraction hs h⟩
  | number l =>
    have hk : s.record.kind = .number := by rw [record, hs]; rfl
    rw [hk]
    exact fitsNumber hs h

end Section

namespace NumberFormat

lemma body_of_parse {P : Body → Prop} (hg : P .general) (ht : ∀ tokens, P (.ofTokens tokens))
    {code : Text} {s : Section} (hs : s ∈ (parse code).sections) : P s.body := by
  cases code with
  | nil =>
    obtain rfl : s = .general := List.mem_singleton.1 hs
    exact hg
  | cons c code =>
    rw [sections_of_ne_nil (List.cons_ne_nil c code)] at hs
    obtain ⟨tokens, -, rfl⟩ := List.mem_map.1 (List.mem_of_mem_take hs)
    exact ht tokens

lemma body_isProper {code : Text} {s : Section} (hs : s ∈ (parse code).sections) :
    s.body.IsProper :=
  body_of_parse (P := Body.IsProper) trivial Body.ofTokens_isProper hs

lemma parse_source (code : Text) : (parse code).source = code := by
  rw [parse]
  unfold ofSections
  split <;> rfl

/-- Every code compiles to one to four sections, each of which fits exactly one kind. -/
theorem parse_fits_kinds (code : Text) :
    (parse code).source = code ∧
      (1 ≤ (parse code).sections.length ∧ (parse code).sections.length ≤ 4) ∧
        ∀ s ∈ (parse code).sections, ∃! k, s.record.Fits k := by
  refine ⟨parse_source code, ⟨?_, (parse code).atMostFour⟩, fun s hs => ?_⟩
  · exact List.length_pos_of_ne_nil (parse code).nonempty
  · exact ⟨s.record.kind, Section.fits_kind (body_isProper hs), fun k hk => hk.eq_kind⟩

end NumberFormat

end SheetFormat
