import Mathlib.Data.List.Induction

/-!
# Brackets in a list

Wrappers in a source, wrapper markers in a template, and the tags of one name are
all brackets. The entries of a list may be opening or closing brackets, or none; `side`
says which. `rise` is the depth behind a list if one starts at depth zero.

Results:
1. `Balanced`: the depth never falls below that of the beginning, and is the same at
   the end.
2. `exists_open`: behind a list of positive depth a bracket is open, of which what
   follows it is balanced. `exists_close`: if the depth falls below that of the beginning,
   then some closing bracket does so first.
3. `Pair`: two entries that belong to each other. `Pair.left_unique`: a closing bracket
   belongs to one opening bracket at most.
4. `Unclosed`: the brackets that are open at the end of a list. They change as a stack
   does when entries follow (`Unclosed.opening`, `Unclosed.closing`, `Unclosed.other`).
-/

namespace HtmlTemplate

inductive Bracket where
  | opening
  | closing
  deriving DecidableEq, Repr

/-- What an entry does to the depth. -/
def Bracket.rise : Option Bracket → Int
  | some .opening => 1
  | some .closing => -1
  | none => 0

namespace Brackets

variable {α : Type} {side : α → Option Bracket}

/-! ## 1. Depths -/

/-- The depth behind the entries, if it is zero before them. -/
def rise (side : α → Option Bracket) (l : List α) : Int :=
  l.foldr (fun a depth => Bracket.rise (side a) + depth) 0

@[simp] theorem rise_nil : rise side [] = 0 := rfl

@[simp] theorem rise_cons (a : α) (l : List α) :
    rise side (a :: l) = Bracket.rise (side a) + rise side l := rfl

@[simp] theorem rise_append (l l' : List α) :
    rise side (l ++ l') = rise side l + rise side l' := by
  induction l with
  | nil => simp
  | cons a l ih => simp [ih, Int.add_assoc]

theorem bracketRise_le (b : Option Bracket) : Bracket.rise b ≤ 1 := by
  cases b with
  | none => decide
  | some b => cases b <;> decide

theorem le_bracketRise (b : Option Bracket) : -1 ≤ Bracket.rise b := by
  cases b with
  | none => decide
  | some b => cases b <;> decide

theorem eq_opening_of_rise {b : Option Bracket} (h : 0 < Bracket.rise b) : b = some .opening := by
  cases b with
  | none => exact absurd h (by decide)
  | some b => cases b with
    | opening => rfl
    | closing => exact absurd h (by decide)

theorem eq_closing_of_rise {b : Option Bracket} (h : Bracket.rise b < 0) : b = some .closing := by
  cases b with
  | none => exact absurd h (by decide)
  | some b => cases b with
    | opening => exact absurd h (by decide)
    | closing => rfl

/-- Behind no beginning of the list the depth is negative. -/
def NeverBelow (side : α → Option Bracket) (l : List α) : Prop :=
  ∀ l', l' <+: l → 0 ≤ rise side l'

theorem NeverBelow.rise_nonneg {l : List α} (h : NeverBelow side l) : 0 ≤ rise side l :=
  h l List.prefix_rfl

theorem neverBelow_append {l l' : List α} (h : NeverBelow side l)
    (h' : ∀ q, q <+: l' → 0 ≤ rise side l + rise side q) : NeverBelow side (l ++ l') := by
  intro p hp
  rcases List.prefix_or_prefix_of_prefix hp (List.prefix_append l l') with hp' | ⟨q, rfl⟩
  · exact h p hp'
  · rw [rise_append]
    exact h' q ((List.prefix_append_right_inj l).mp hp)

theorem neverBelow_concat {l : List α} {a : α} (h : NeverBelow side l)
    (ha : 0 ≤ rise side l + Bracket.rise (side a)) : NeverBelow side (l ++ [a]) := by
  refine neverBelow_append h fun q hq => ?_
  rcases List.prefix_cons_iff.mp hq with rfl | ⟨q', rfl, hq'⟩
  · simpa using h.rise_nonneg
  · rw [List.prefix_nil.mp hq']
    simpa using ha

/-- The brackets in the list belong to each other. -/
structure Balanced (side : α → Option Bracket) (l : List α) : Prop where
  neverBelow : NeverBelow side l
  rise_eq : rise side l = 0

namespace Balanced

theorem nil : Balanced side [] :=
  ⟨fun p hp => by rw [List.prefix_nil.mp hp]; exact Int.le_refl _, rfl⟩

theorem append {l l' : List α} (h : Balanced side l) (h' : Balanced side l') :
    Balanced side (l ++ l') := by
  refine ⟨neverBelow_append h.neverBelow fun q hq => ?_, ?_⟩
  · rw [h.rise_eq, Int.zero_add]
    exact h'.neverBelow q hq
  · rw [rise_append, h.rise_eq, h'.rise_eq]
    rfl

theorem single {a : α} (ha : side a = none) : Balanced side [a] := by
  have h0 : Bracket.rise (side a) = 0 := by rw [ha]; rfl
  have hnil : Balanced side [] := .nil
  have h := neverBelow_concat (a := a) hnil.neverBelow (by simp [h0])
  exact ⟨h, by simp [h0]⟩

/-- A balanced list between an opening and a closing bracket. -/
theorem enclose {s e : α} {inside : List α} (hs : side s = some .opening)
    (he : side e = some .closing) (h : Balanced side inside) :
    Balanced side (s :: (inside ++ [e])) := by
  have hs1 : Bracket.rise (side s) = 1 := by rw [hs]; rfl
  have he1 : Bracket.rise (side e) = -1 := by rw [he]; rfl
  have hopen : NeverBelow side (s :: inside) := by
    have hnil : Balanced side [] := .nil
    have hone := neverBelow_concat (a := s) hnil.neverBelow (by simp [hs1])
    refine neverBelow_append hone fun q hq => ?_
    have := h.neverBelow q hq
    simp only [List.nil_append, rise_cons, rise_nil, hs1]
    omega
  refine ⟨neverBelow_concat hopen ?_, ?_⟩
  · rw [rise_cons, hs1, he1, h.rise_eq]
    decide
  · rw [rise_cons, rise_append, rise_cons, rise_nil, hs1, he1, h.rise_eq]
    rfl

end Balanced

/-! ## 2. Brackets that are open, brackets that close -/

/-- The depth falls below that of the beginning at some closing bracket for the first time. -/
theorem exists_close {l : List α} (h : ¬NeverBelow side l) :
    ∃ inside e behind, l = inside ++ e :: behind ∧ side e = some .closing ∧
      Balanced side inside := by
  induction l using List.reverseRecOn with
  | nil => exact absurd Balanced.nil.neverBelow h
  | append_singleton l a ih =>
    by_cases hl : NeverBelow side l
    · have ha : rise side l + Bracket.rise (side a) < 0 := by
        refine Int.not_le.mp fun ha => h ?_
        exact neverBelow_concat hl ha
      have h0 := hl.rise_nonneg
      have h1 := le_bracketRise (side a)
      exact ⟨l, a, [], rfl, eq_closing_of_rise (by omega), hl, by omega⟩
    · obtain ⟨inside, e, behind, rfl, he, hb⟩ := ih hl
      exact ⟨inside, e, behind ++ [a], by simp, he, hb⟩

/-- Behind a list of positive depth some bracket is open: what follows the innermost one is
balanced. -/
theorem exists_open {l : List α} (h : 0 < rise side l) :
    ∃ before s inside, l = before ++ s :: inside ∧ side s = some .opening ∧
      Balanced side inside := by
  induction hn : l.length using Nat.strongRecOn generalizing l with
  | ind n ih =>
    cases l with
    | nil => exact absurd h (Int.lt_irrefl 0)
    | cons a l =>
      -- The bracket is looked for further behind, as long as the depth is positive there.
      have hlater : ∀ before inside : List α, l = before ++ inside → 0 < rise side inside →
          ∃ before s inside, a :: l = before ++ s :: inside ∧ side s = some .opening ∧
            Balanced side inside := by
        rintro before inside rfl hi
        have hlt : inside.length < n := by
          rw [← hn, List.length_cons, List.length_append]
          omega
        obtain ⟨x, s, y, rfl, hs, hy⟩ := ih _ hlt hi rfl
        exact ⟨a :: (before ++ x), s, y, by simp, hs, hy⟩
      by_cases hl : NeverBelow side l
      · rcases Int.lt_or_le 0 (rise side l) with hpos | hle
        · exact hlater [] l rfl hpos
        · rw [rise_cons] at h
          have h0 := hl.rise_nonneg
          exact ⟨[], a, l, rfl, eq_opening_of_rise (by omega), hl, by omega⟩
      · obtain ⟨inside, e, behind, rfl, he, hb⟩ := exists_close hl
        have he1 : Bracket.rise (side e) = -1 := by rw [he]; rfl
        have h1 := bracketRise_le (side a)
        refine hlater (inside ++ [e]) behind (by simp) ?_
        rw [rise_cons, rise_append, rise_cons, hb.rise_eq, he1] at h
        omega

/-! ## 3. Brackets that belong to each other -/

/-- The opening bracket at the index `i` and the closing one at `j` belong to each other:
what stands between them is balanced. -/
def Pair (side : α → Option Bracket) (l : List α) (i j : Nat) : Prop :=
  ∃ before s inside e behind, l = before ++ s :: (inside ++ e :: behind) ∧
    i = before.length ∧ j = before.length + 1 + inside.length ∧
    side s = some .opening ∧ side e = some .closing ∧ Balanced side inside

namespace Pair

variable {l : List α} {i j : Nat}

theorem lt (h : Pair side l i j) : i < j ∧ j < l.length := by
  obtain ⟨before, s, inside, e, behind, rfl, rfl, rfl, -⟩ := h
  constructor
  · omega
  · simp only [List.length_append, List.length_cons]
    omega

theorem getElem?_right (h : Pair side l i j) : ∃ e, l[j]? = some e ∧ side e = some .closing := by
  obtain ⟨before, s, inside, e, behind, rfl, rfl, rfl, -, he, -⟩ := h
  refine ⟨e, ?_, he⟩
  rw [List.getElem?_append_right (by omega)]
  have : before.length + 1 + inside.length - before.length = inside.length + 1 := by omega
  simp [this]

/-- Entries behind a pair do not matter. -/
theorem append (h : Pair side l i j) (l' : List α) : Pair side (l ++ l') i j := by
  obtain ⟨before, s, inside, e, behind, rfl, hi, hj, hs, he, hb⟩ := h
  exact ⟨before, s, inside, e, behind ++ l', by simp, hi, hj, hs, he, hb⟩

theorem of_append {l' : List α} (h : Pair side (l ++ l') i j) (hj : j < l.length) :
    Pair side l i j := by
  obtain ⟨before, s, inside, e, behind, heq, rfl, rfl, hs, he, hb⟩ := h
  have hlong : before ++ s :: (inside ++ [e]) <+: l ++ l' := ⟨behind, by rw [heq]; simp⟩
  have hp : before ++ s :: (inside ++ [e]) <+: l := by
    refine List.prefix_of_prefix_length_le hlong (List.prefix_append l l') ?_
    simp only [List.length_append, List.length_cons, List.length_nil]
    omega
  obtain ⟨rest, rfl⟩ := hp
  exact ⟨before, s, inside, e, rest, by simp, rfl, rfl, hs, he, hb⟩

theorem left_unique {i' : Nat} (h : Pair side l i j) (h' : Pair side l i' j) : i = i' := by
  -- An opening bracket inside of a balanced list does not belong to a bracket outside.
  have hno : ∀ {i i' : Nat}, Pair side l i j → Pair side l i' j → ¬i < i' := by
    rintro i i' ⟨x, s, y, e, z, rfl, rfl, rfl, hs, he, hb⟩
      ⟨x', s', y', e', z', hl', rfl, hj, hs', he', hb'⟩ hlt
    have hl : (x ++ s :: y) ++ e :: z = (x' ++ s' :: y') ++ e' :: z' := by
      simpa using hl'
    obtain ⟨hfront, -⟩ := List.append_inj hl (by simp; omega)
    have hlen : y'.length < y.length := by omega
    have hlong : s' :: y' <:+ x ++ s :: y := ⟨x', hfront.symm⟩
    obtain ⟨mid, hmid⟩ : s' :: y' <:+ y := by
      refine List.suffix_of_suffix_length_le hlong
        ((List.suffix_cons s y).trans (List.suffix_append x _)) ?_
      simpa using Nat.succ_le_of_lt hlen
    subst hmid
    have h0 := hb.neverBelow mid (List.prefix_append _ _)
    have h1 := hb.rise_eq
    rw [rise_append, rise_cons, hs', hb'.rise_eq] at h1
    have h2 : Bracket.rise (some .opening) = 1 := rfl
    omega
  have h1 := hno h h'
  have h2 := hno h' h
  omega

end Pair

/-! ## 4. Brackets that are open at the end -/

/-- The brackets with the given indices are open at the end of the list, the innermost one
first. -/
inductive Unclosed (side : α → Option Bracket) : List α → List Nat → Prop
  | none {l : List α} : Balanced side l → Unclosed side l []
  | some {l inside : List α} {s : α} {opened : List Nat} :
      Unclosed side l opened → side s = some .opening → Balanced side inside →
      Unclosed side (l ++ s :: inside) (l.length :: opened)

namespace Unclosed

variable {l : List α} {a : α} {opened : List Nat}

theorem append {l' : List α} (h : Unclosed side l opened) (h' : Balanced side l') :
    Unclosed side (l ++ l') opened := by
  cases h with
  | none hl => exact .none (hl.append h')
  | some hl hs hi =>
    rw [List.append_assoc, List.cons_append]
    exact .some hl hs (hi.append h')

theorem other (h : Unclosed side l opened) (ha : side a = Option.none) :
    Unclosed side (l ++ [a]) opened :=
  h.append (.single ha)

theorem opening (h : Unclosed side l opened) (ha : side a = Option.some .opening) :
    Unclosed side (l ++ [a]) (l.length :: opened) :=
  .some h ha .nil

/-- A closing bracket belongs to the innermost bracket that is open. -/
theorem closing {i : Nat} (h : Unclosed side l (i :: opened)) (ha : side a = Option.some .closing) :
    Unclosed side (l ++ [a]) opened ∧ Pair side (l ++ [a]) i l.length := by
  cases h with
  | @some l inside s _ hl hs hi =>
    refine ⟨?_, l, s, inside, a, [], by simp, rfl, ?_, hs, ha, hi⟩
    · rw [List.append_assoc, List.cons_append]
      exact hl.append (hi.enclose hs ha)
    · simp only [List.length_append, List.length_cons]
      omega

theorem rise_eq (h : Unclosed side l opened) : rise side l = opened.length := by
  induction h with
  | none hl => exact hl.rise_eq
  | some hl hs hi ih =>
    rw [rise_append, rise_cons, ih, hs, hi.rise_eq, List.length_cons]
    show _ + (1 + 0 : Int) = _
    omega

theorem neverBelow (h : Unclosed side l opened) : NeverBelow side l := by
  induction h with
  | none hl => exact hl.neverBelow
  | @some l inside s opened hl hs hi ih =>
    refine neverBelow_append ih fun q hq => ?_
    have h0 := ih.rise_nonneg
    rcases List.prefix_cons_iff.mp hq with rfl | ⟨q', rfl, hq'⟩
    · simpa using h0
    · have hq0 := hi.neverBelow q' hq'
      rw [rise_cons, hs]
      show 0 ≤ _ + (1 + _)
      omega

theorem lt_length {i : Nat} (h : Unclosed side l opened) (hi : i ∈ opened) : i < l.length := by
  induction h with
  | none => cases hi
  | @some l inside s opened hl hs hb ih =>
    rw [List.length_append, List.length_cons]
    rcases List.mem_cons.mp hi with rfl | hi
    · omega
    · have := ih hi
      omega

end Unclosed

end Brackets

end HtmlTemplate
