import SheetFormat.Proofs.Code.Variation
import SheetFormat.Proofs.Format.Insertion
import SheetFormat.Proofs.Section.Carried

namespace SheetFormat

structure Token.Carries (cs : List (Char × Char)) (ts us : List Token) : Prop where
  general : .general ∈ ts ↔ .general ∈ us
  colors : ts.filterMap Token.color? = us.filterMap Token.color?
  elements : Woven Element.quoted cs (ts.flatMap Element.ofToken) (us.flatMap Element.ofToken)

lemma Section.carries_ofTokens {cs : List (Char × Char)} {ts us : List Token}
    (h : Token.Carries cs ts us) : (ofTokens ts).Carries cs (ofTokens us) := by
  refine ⟨?_, congrArg List.getLast? h.colors⟩
  change (Body.ofTokens ts).Carries cs (Body.ofTokens us)
  simp only [Body.ofTokens, h.general]
  split
  · exact .general cs
  · exact Body.carries_ofElements h.elements

lemma woven_of_sameSpaces {u v : Text} (h : u.length = v.length) (hv : SameSpaces u v) :
    Woven Element.quoted ((u.zip v).filter fun x => x.1 ≠ ' ') (u.map Element.quoted)
      (v.map Element.quoted) := by
  induction u generalizing v with
  | nil =>
    obtain rfl := List.length_eq_zero_iff.1 h.symm
    exact .nil
  | cons c u ih =>
    cases v with
    | nil => simp at h
    | cons d v =>
      have hcd : c = ' ' ↔ d = ' ' := hv (c, d) (List.mem_cons_self ..)
      have hr := ih (Nat.succ.inj h) fun x hx => hv x (List.mem_cons_of_mem _ hx)
      rw [List.zip_cons_cons]
      by_cases hc : c = ' '
      · obtain rfl := hc.trans (hcd.1 hc).symm
        rw [List.filter_cons_of_neg (by simpa using hc)]
        exact .same _ hr
      · rw [List.filter_cons_of_pos (by simpa using hc)]
        exact .changed hc (mt hcd.2 hc) hr

namespace Token.Carries

lemma refl (t : Token) : Token.Carries [] [t] [t] := ⟨Iff.rfl, rfl, .refl _ _⟩

lemma cons {cs ds : List (Char × Char)} {t u : Token} {ts us : List Token}
    (h : Token.Carries cs [t] [u]) (h' : Token.Carries ds ts us) :
    Token.Carries (cs ++ ds) (t :: ts) (u :: us) := by
  constructor
  · have hg := h.general
    simp only [List.mem_singleton] at hg
    simp only [List.mem_cons, hg, h'.general]
  · change ([t] ++ ts).filterMap Token.color? = ([u] ++ us).filterMap Token.color?
    rw [List.filterMap_append, List.filterMap_append, h.colors, h'.colors]
  · simpa using h.elements.append h'.elements

lemma of_quoted {x y : Text} (hl : x.length = y.length) (hs : SameSpaces x y) :
    Token.Carries ((Token.quoted x).pairs (.quoted y)) [.quoted x] [.quoted y] := by
  refine ⟨by simp, rfl, ?_⟩
  rw [List.flatMap_singleton, List.flatMap_singleton]
  exact woven_of_sameSpaces hl hs

lemma of_escaped {c d : Char} (hs : SameSpaces [c] [d]) :
    Token.Carries ((Token.escaped c).pairs (.escaped d)) [.escaped c] [.escaped d] := by
  refine ⟨by simp, rfl, ?_⟩
  exact woven_of_sameSpaces (u := [c]) (v := [d]) rfl hs

lemma of_twin {t u : Token} {v w : Text} (h : Twin (t, v) (u, w)) (hs : SameSpaces v w) :
    Token.Carries (t.pairs u) [t] [u] := by
  cases h with
  | same =>
    cases t with
    | quoted x => exact of_quoted rfl (.refl x)
    | escaped c => exact of_escaped (.refl [c])
    | _ => exact refl _
  | @quoted x y q hl =>
    have hi := (hs.append (u := ['"']) (v := ['"']) rfl).2
    exact of_quoted hl (hi.append hl).1
  | escaped c d => exact of_escaped (hs.append (u := ['\\']) (v := ['\\']) rfl).2

end Token.Carries

lemma pairsFrom_of_lt {k c : Nat} (h : k < c) (ts us : List (Token × Text)) :
    pairsFrom k c ts us = [] := by
  induction ts generalizing c us with
  | nil => rfl
  | cons t ts ih =>
    cases us with
    | nil => rfl
    | cons u us =>
      rw [pairsFrom, if_neg h.ne', ih, List.append_nil]
      split <;> omega

namespace NumberFormat

def GroupsCarry (carried : Nat → List (Char × Char)) (gs hs : List (List Token)) : Prop :=
  gs.length = hs.length ∧ ∀ (j : Nat) (g h : List Token), gs[j]? = some g → hs[j]? = some h →
    Token.Carries (carried j) g h

namespace GroupsCarry

variable {f f' : Nat → List (Char × Char)} {cs : List (Char × Char)} {t u : Token}
  {g h : List Token} {gs hs : List (List Token)}

lemma separator (hc : GroupsCarry f gs hs) (h₀ : f' 0 = []) (hf : ∀ j, f' (j + 1) = f j) :
    GroupsCarry f' ([] :: gs) ([] :: hs) := by
  refine ⟨congrArg (· + 1) hc.1, fun j g h hg hh => ?_⟩
  cases j with
  | zero =>
    obtain rfl := Option.some.inj hg
    obtain rfl := Option.some.inj hh
    rw [h₀]
    exact ⟨Iff.rfl, rfl, .nil⟩
  | succ j =>
    rw [hf]
    exact hc.2 j g h hg hh

lemma token (hc : GroupsCarry f (g :: gs) (h :: hs)) (ht : Token.Carries cs [t] [u])
    (h₀ : f' 0 = cs ++ f 0) (hf : ∀ j, f' (j + 1) = f (j + 1)) :
    GroupsCarry f' ((t :: g) :: gs) ((u :: h) :: hs) := by
  refine ⟨hc.1, fun j g' h' hg hh => ?_⟩
  cases j with
  | zero =>
    obtain rfl := Option.some.inj hg
    obtain rfl := Option.some.inj hh
    rw [h₀]
    exact ht.cons (hc.2 0 g h rfl rfl)
  | succ j =>
    rw [hf]
    exact hc.2 (j + 1) g' h' hg hh

end GroupsCarry

lemma groupsCarry_of_twins {ts us : List (Token × Text)} (h : List.Forall₂ Twin ts us)
    (hv : SameSpaces (spelling ts) (spelling us)) (c : Nat) :
    GroupsCarry (fun j => pairsFrom (c + j) c ts us) ((ts.map Prod.fst).splitOn .separator)
      ((us.map Prod.fst).splitOn .separator) := by
  induction h generalizing c with
  | nil =>
    refine ⟨rfl, fun j g g' hg hg' => ?_⟩
    cases j with
    | zero =>
      obtain rfl := Option.some.inj hg
      obtain rfl := Option.some.inj hg'
      exact ⟨Iff.rfl, rfl, .nil⟩
    | succ j => cases hg
  | @cons x y ts us hx h ih =>
    obtain ⟨t, v⟩ := x
    obtain ⟨u, w⟩ := y
    rw [spelling_cons, spelling_cons] at hv
    obtain ⟨hv₁, hv₂⟩ := hv.append hx.length_eq
    by_cases ht : t = .separator
    · subst ht
      obtain rfl : u = .separator := by
        cases hx
        rfl
      have hp : Token.pairs .separator .separator = [] := rfl
      rw [List.map_cons, List.map_cons, splitOn_cons_self, splitOn_cons_self]
      refine (ih hv₂ (c + 1)).separator ?_ fun j => ?_
      · rw [pairsFrom, if_pos rfl, hp, ite_self, List.nil_append]
        exact pairsFrom_of_lt (Nat.lt_succ_self c) ts us
      · rw [pairsFrom, if_pos rfl, hp, ite_self, List.nil_append, Nat.add_assoc,
          Nat.add_comm 1]
    · have hu : u ≠ .separator := by
        cases hx with
        | same => exact ht
        | quoted => exact Token.noConfusion
        | escaped => exact Token.noConfusion
      have hr := ih hv₂ c
      obtain ⟨g, gs, hgs⟩ := List.exists_cons_of_ne_nil
        (List.splitOn_ne_nil Token.separator (ts.map Prod.fst))
      obtain ⟨g', gs', hgs'⟩ := List.exists_cons_of_ne_nil
        (List.splitOn_ne_nil Token.separator (us.map Prod.fst))
      rw [hgs, hgs'] at hr
      rw [List.map_cons, List.map_cons, splitOn_cons_of_ne ht, splitOn_cons_of_ne hu, hgs, hgs']
      refine hr.token (Token.Carries.of_twin hx hv₁) ?_ fun j => ?_
      · rw [pairsFrom, if_neg ht, if_pos (Nat.add_zero c).symm]
      · rw [pairsFrom, if_neg ht, if_neg (by omega), List.nil_append]

lemma sections_carry {a b : Text} (h : HiddenVariation a b) :
    (parse a).sections.length = (parse b).sections.length ∧
      ∀ (k : Nat) (s t : Section), (parse a).sections[k]? = some s →
        (parse b).sections[k]? = some t → s.Carries (hiddenIn a b k) t := by
  by_cases ha : a = []
  · subst ha
    obtain rfl : b = [] := List.length_eq_zero_iff.1 h.length_eq.symm
    refine ⟨rfl, fun k s t hs ht => ?_⟩
    obtain rfl : s = t := Option.some.inj (hs.symm.trans ht)
    have hg : s ∈ [Section.general] := List.mem_of_getElem? hs
    obtain rfl := List.mem_singleton.1 hg
    exact ⟨.general _, rfl⟩
  · have hb : b ≠ [] := by
      rintro rfl
      exact ha (List.length_eq_zero_iff.1 h.length_eq)
    obtain ⟨ts, hts⟩ := exists_spelled a
    obtain ⟨us, hus⟩ := exists_spelled b
    have htwins := h.forall₂_twin hts hus
    have hv := h.sameSpaces
    rw [← hts.spelling_eq, ← hus.spelling_eq] at hv
    obtain ⟨hl, hc⟩ := groupsCarry_of_twins htwins hv 0
    rw [← tokens_of_spelled hts, ← tokens_of_spelled hus] at hl hc
    rw [sections_of_ne_nil ha, sections_of_ne_nil hb, tokenGroups, tokenGroups, ← tokens, ← tokens]
    refine ⟨by simp [hl], fun k s t hs ht => ?_⟩
    simp only [List.getElem?_take, Option.ite_none_right_eq_some, List.getElem?_map,
      Option.map_eq_some_iff] at hs ht
    obtain ⟨-, g, hg, rfl⟩ := hs
    obtain ⟨-, g', hg', rfl⟩ := ht
    rw [hiddenIn_eq htwins hts hus, ← Nat.zero_add k]
    exact Section.carries_ofTokens (hc k g g' hg hg')

/-- Two codes that differ in quoted and escaped characters only, none of them a space, have as many
sections, which agree but for the literals that carry these characters in their order. In one code
alone every quoted or escaped character that is no space is such a literal, and nothing else. -/
theorem parse_varied {a b : Text} (h : HiddenVariation a b) :
    (parse a).sections.length = (parse b).sections.length ∧
      (∀ (k : Nat) (s t : Section), (parse a).sections[k]? = some s →
        (parse b).sections[k]? = some t → s.Carries (hiddenIn a b k) t) ∧
      ∀ (k : Nat) (s : Section), (parse a).sections[k]? = some s →
        s.Carries (hiddenIn a a k) s := by
  obtain ⟨hl, hc⟩ := sections_carry h
  exact ⟨hl, hc, fun k s hs => (sections_carry (.refl a)).2 k s s hs hs⟩

theorem parse_varied_marks :
    let a := "0\"5/9;E+\"\\.,0;\\mh".toList
    let b := "0\"abcdef\"\\g,0;\\ih".toList
    HiddenVariation a b ∧ (parse a).sections.length = (parse b).sections.length ∧
      (∀ (k : Nat) (s t : Section), (parse a).sections[k]? = some s →
        (parse b).sections[k]? = some t → s.Carries (hiddenIn a b k) t) ∧
      ∀ (k : Nat) (s : Section), (parse a).sections[k]? = some s →
        s.Carries (hiddenIn a a k) s := by
  intro a b
  have h : HiddenVariation a b :=
    ⟨by decide, by decide +kernel, by decide +kernel⟩
  exact ⟨h, parse_varied h⟩

end NumberFormat

end SheetFormat
