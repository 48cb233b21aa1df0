import HtmlTemplate.Text.Blank
import HtmlTemplate.Text.Decimal
import Mathlib.Data.List.TakeWhile
import Mathlib.Data.Nat.Digits.Defs

/-!
# Numbers in texts

A number is written with an optional plus sign and one or more ASCII digits, and white space may
stand around it. Digits are read from left to right, and reading ends at the first character that
is no digit or makes the number too large. What a text means is said here without reading it.

Results:
1. `Text.trims_iff`: what is left when the white space at both ends is taken away.
2. `Decimal.digitsRead_readDigits`, `Decimal.DigitsRead.unique`: reading digits gives the number
   that all of them write, or the first fault.
3. `Decimal.read_eq_ok_iff`, `Decimal.read_eq_error_iff`: which texts are read as a number, and
   what is wrong with the others.
-/

namespace HtmlTemplate

/-! ## 1. White space at the ends -/

namespace Text

/-- `core` is what stands between the white space at the ends of `cs`. -/
def Trims (cs core : List Char) : Prop :=
  ∃ front back, cs = front ++ core ++ back ∧ (∀ c ∈ front ++ back, isBlank c = true) ∧
    ∀ c, core.head? = some c ∨ core.getLast? = some c → isBlank c = false

/-- White space is dropped up to the first other character. -/
theorem dropWhile_append_of_blank {front rest : List Char} (hfront : ∀ c ∈ front, isBlank c = true)
    (hrest : ∀ c, rest.head? = some c → isBlank c = false) :
    (front ++ rest).dropWhile isBlank = rest := by
  rw [List.dropWhile_append_of_pos hfront]
  cases rest with
  | nil => rfl
  | cons c rest => simp [hrest c rfl]

theorem isBlank_of_head?_dropWhile {cs : List Char} {c : Char}
    (h : (cs.dropWhile isBlank).head? = some c) : isBlank c = false := by
  have hnot := List.head?_dropWhile_not isBlank cs
  rwa [h] at hnot

theorem trims_trimBlank (cs : List Char) : Trims cs (trimBlank cs) := by
  have hcore : cs.dropWhile isBlank =
      trimBlank cs ++ ((cs.dropWhile isBlank).reverse.takeWhile isBlank).reverse := by
    rw [trimBlank, ← List.reverse_append, List.takeWhile_append_dropWhile, List.reverse_reverse]
  refine ⟨cs.takeWhile isBlank, ((cs.dropWhile isBlank).reverse.takeWhile isBlank).reverse, ?_,
    fun c hc => ?_, ?_⟩
  · rw [List.append_assoc, ← hcore, List.takeWhile_append_dropWhile]
  · rcases List.mem_append.mp hc with hc | hc
    · exact List.mem_takeWhile_imp hc
    · exact List.mem_takeWhile_imp (List.mem_reverse.mp hc)
  · rintro c (hc | hc)
    · have hhead : (cs.dropWhile isBlank).head? = some c := by
        rw [hcore, List.head?_append, hc, Option.some_or]
      exact isBlank_of_head?_dropWhile hhead
    · rw [trimBlank, List.getLast?_reverse] at hc
      exact isBlank_of_head?_dropWhile hc

theorem trims_iff {cs core : List Char} : Trims cs core ↔ core = trimBlank cs := by
  constructor
  · rintro ⟨front, back, rfl, hblank, hends⟩
    obtain ⟨hfront, hback⟩ := List.forall_mem_append.mp hblank
    cases core with
    | nil =>
      -- Nothing but white space: all of it goes with the first drop.
      have hnil : (front ++ [] ++ back).dropWhile isBlank = [] := by
        rw [List.append_nil]
        exact List.dropWhile_eq_nil_iff.mpr (List.forall_mem_append.mpr ⟨hfront, hback⟩)
      rw [trimBlank, hnil]
      rfl
    | cons c core =>
      have hleft : (front ++ c :: core ++ back).dropWhile isBlank = c :: core ++ back := by
        rw [List.append_assoc]
        exact dropWhile_append_of_blank hfront fun c' hc' => hends c' (.inl hc')
      have hright : (c :: core ++ back).reverse.dropWhile isBlank = (c :: core).reverse := by
        rw [List.reverse_append]
        refine dropWhile_append_of_blank (fun c' hc' => hback c' (List.mem_reverse.mp hc')) ?_
        intro c' hc'
        rw [List.head?_reverse] at hc'
        exact hends c' (.inr hc')
      rw [trimBlank, hleft, hright, List.reverse_reverse]
  · rintro rfl
    exact trims_trimBlank cs

end Text

namespace Decimal

/-! ## 2. Digits -/

/-- All characters are ASCII digits. -/
def Digits (cs : List Char) : Prop := ∀ c ∈ cs, c.isDigit = true

/-- The number that digits write. The last one is worth least. -/
def value (digits : List Char) : Nat :=
  Nat.ofDigits 10 (digits.reverse.map fun c => c.toNat - '0'.toNat)

@[simp] theorem value_nil : value [] = 0 := rfl

theorem value_concat (digits : List Char) (c : Char) :
    value (digits ++ [c]) = value digits * 10 + (c.toNat - '0'.toNat) := by
  rw [value, List.reverse_append, List.reverse_singleton, List.singleton_append, List.map_cons,
    Nat.ofDigits_cons, Nat.mul_comm, Nat.add_comm]
  rfl

/-- More digits do not make a number smaller. -/
theorem value_le_append (digits more : List Char) : value digits ≤ value (digits ++ more) := by
  induction more generalizing digits with
  | nil => rw [List.append_nil]
  | cons c more ih =>
    calc value digits ≤ value (digits ++ [c]) := by rw [value_concat]; omega
      _ ≤ value (digits ++ [c] ++ more) := ih _
      _ = value (digits ++ c :: more) := by rw [List.append_assoc, List.singleton_append]

/-- What the digits `cs` are read as: the number that they write, or the first fault. -/
inductive DigitsRead (bound : Nat) (cs : List Char) : Except NumberError Nat → Prop
  | number : Digits cs → value cs < bound → DigitsRead bound cs (.ok (value cs))
  | invalidDigit {front rest : List Char} {c : Char} : cs = front ++ c :: rest → Digits front →
      value front < bound → c.isDigit = false → DigitsRead bound cs (.error .invalidDigit)
  | tooLarge {front rest : List Char} : cs = front ++ rest → Digits front → bound ≤ value front →
      DigitsRead bound cs (.error .tooLarge)

variable {bound n : Nat} {cs front rest : List Char}

theorem Digits.concat (h : Digits front) {c : Char} (hc : c.isDigit = true) :
    Digits (front ++ [c]) :=
  List.forall_mem_append.mpr ⟨h, fun _ hmem => List.mem_singleton.mp hmem ▸ hc⟩

/-- The digits `front` have been read, and `rest` is left. -/
theorem digitsRead_readDigits (hfront : Digits front) (hvalue : value front < bound)
    (rest : List Char) :
    DigitsRead bound (front ++ rest) (readDigits bound (value front) rest) := by
  induction rest generalizing front with
  | nil =>
    rw [List.append_nil]
    exact .number hfront hvalue
  | cons c rest ih =>
    unfold readDigits
    cases hc : c.isDigit with
    | false =>
      simp only [digit?, hc, Bool.false_eq_true, if_false]
      exact .invalidDigit rfl hfront hvalue hc
    | true =>
      have happend : front ++ c :: rest = front ++ [c] ++ rest := by simp
      simp only [digit?, hc, if_true, ← value_concat, happend]
      split
      · next hlt => exact ih (hfront.concat hc) hlt
      · next hle => exact .tooLarge rfl (hfront.concat hc) (Nat.le_of_not_lt hle)

theorem Digits.isDigit_of_split (h : Digits cs) {c : Char} (hcs : cs = front ++ c :: rest) :
    c.isDigit = true :=
  h c (by simp [hcs])

theorem value_front_le (hcs : cs = front ++ rest) : value front ≤ value cs :=
  hcs ▸ value_le_append front rest

/-- Digits up to the first fault do not write too large a number. -/
theorem value_lt_of_invalidDigit {front' rest' : List Char} {c : Char}
    (h : front ++ c :: rest = front' ++ rest') (hvalue : value front < bound)
    (hc : c.isDigit = false) (hfront' : Digits front') : value front' < bound := by
  rcases List.append_eq_append_iff.mp h with ⟨more, rfl, hmore⟩ | ⟨more, rfl, -⟩
  · cases more with
    | nil => rwa [List.append_nil]
    | cons c' more =>
      obtain ⟨rfl, -⟩ := List.cons.inj hmore
      simp [hfront'.isDigit_of_split rfl] at hc
  · exact Nat.lt_of_le_of_lt (value_le_append front' more) hvalue

theorem DigitsRead.unique {x y : Except NumberError Nat} (h : DigitsRead bound cs x)
    (h' : DigitsRead bound cs y) : x = y := by
  cases h with
  | number hdigits hvalue =>
    cases h' with
    | number => rfl
    | invalidDigit hcs _ _ hc => simp [hdigits.isDigit_of_split hcs] at hc
    | tooLarge hcs _ hle =>
      exact absurd (Nat.le_trans hle (value_front_le hcs)) (Nat.not_le.mpr hvalue)
  | invalidDigit hcs _ hvalue hc =>
    cases h' with
    | number hdigits => simp [hdigits.isDigit_of_split hcs] at hc
    | invalidDigit => rfl
    | tooLarge hcs' hdigits hle =>
      have hlt := value_lt_of_invalidDigit (hcs.symm.trans hcs') hvalue hc hdigits
      exact absurd hle (Nat.not_le.mpr hlt)
  | tooLarge hcs hdigits hle =>
    cases h' with
    | number _ hvalue =>
      exact absurd (Nat.le_trans hle (value_front_le hcs)) (Nat.not_le.mpr hvalue)
    | invalidDigit hcs' _ hvalue hc =>
      have hlt := value_lt_of_invalidDigit (hcs'.symm.trans hcs) hvalue hc hdigits
      exact absurd hle (Nat.not_le.mpr hlt)
    | tooLarge => rfl

theorem readDigits_eq_iff (hbound : 0 < bound) {x : Except NumberError Nat} :
    readDigits bound 0 cs = x ↔ DigitsRead bound cs x := by
  have hnone : Digits [] := fun _ h => absurd h List.not_mem_nil
  have hread : DigitsRead bound cs (readDigits bound 0 cs) := digitsRead_readDigits hnone hbound cs
  constructor
  · rintro rfl
    exact hread
  · exact hread.unique

/-! ## 3. Signs -/

/-- The text writes the number: an optional plus sign and one or more digits. -/
def Writes (cs : List Char) (n : Nat) : Prop :=
  ∃ sign digits, cs = sign ++ digits ∧ (sign = [] ∨ sign = ['+']) ∧ digits ≠ [] ∧ Digits digits ∧
    value digits = n

/-- The text behind its plus sign. A sign alone is taken for a digit. -/
def unsigned : List Char → List Char
  | '+' :: c :: rest => c :: rest
  | cs => cs

/-- What is wrong with a text that writes no number below the bound. -/
inductive Wrong (bound : Nat) (cs : List Char) : NumberError → Prop
  | empty : cs = [] → Wrong bound cs .empty
  /-- The digits in front of the character write a number below the bound. -/
  | invalidDigit {front rest : List Char} {c : Char} : unsigned cs = front ++ c :: rest →
      Digits front → value front < bound → c.isDigit = false → Wrong bound cs .invalidDigit
  /-- All characters up to the one that makes the number too large are digits. -/
  | tooLarge {front rest : List Char} : unsigned cs = front ++ rest → Digits front →
      bound ≤ value front → Wrong bound cs .tooLarge

theorem read_of_ne_nil (h : cs ≠ []) : read bound cs = readDigits bound 0 (unsigned cs) := by
  unfold read unsigned
  split
  · exact absurd rfl h
  · simp [readDigits, digit?]
  · next rest hrest =>
    cases rest with
    | nil => exact absurd rfl hrest
    | cons c rest => rfl
  · next hsign =>
    split
    · exact absurd rfl (hsign _)
    · rfl

theorem writes_iff : Writes cs n ↔ cs ≠ [] ∧ Digits (unsigned cs) ∧ value (unsigned cs) = n := by
  constructor
  · rintro ⟨sign, digits, rfl, hsign, hne, hdigits, hvalue⟩
    cases digits with
    | nil => exact absurd rfl hne
    | cons c digits =>
      rcases hsign with rfl | rfl
      · have hplus : c ≠ '+' := by
          rintro rfl
          exact absurd (hdigits '+' List.mem_cons_self) (by decide)
        have hunsigned : unsigned (c :: digits) = c :: digits := by
          unfold unsigned
          split
          · next heq => exact absurd (List.cons.inj heq).1 hplus
          · rfl
        exact ⟨List.cons_ne_nil _ _, hunsigned.symm ▸ hdigits, hunsigned.symm ▸ hvalue⟩
      · exact ⟨List.cons_ne_nil _ _, hdigits, hvalue⟩
  · rintro ⟨hne, hdigits, rfl⟩
    unfold unsigned at hdigits ⊢
    split
    · exact ⟨['+'], _, rfl, .inr rfl, List.cons_ne_nil _ _, hdigits, rfl⟩
    · exact ⟨[], cs, rfl, .inl rfl, hne, by simpa using hdigits, rfl⟩

theorem read_eq_ok_iff (hbound : 0 < bound) : read bound cs = .ok n ↔ Writes cs n ∧ n < bound := by
  rw [writes_iff]
  by_cases hne : cs = []
  · subst hne
    simp [read]
  · rw [read_of_ne_nil hne, readDigits_eq_iff hbound]
    constructor
    · intro h
      cases h with
      | number hdigits hvalue => exact ⟨⟨hne, hdigits, rfl⟩, hvalue⟩
    · rintro ⟨⟨-, hdigits, rfl⟩, hvalue⟩
      exact .number hdigits hvalue

theorem read_eq_error_iff (hbound : 0 < bound) {reason : NumberError} :
    read bound cs = .error reason ↔ Wrong bound cs reason := by
  by_cases hne : cs = []
  · subst hne
    constructor
    · intro h
      cases h
      exact .empty rfl
    · intro h
      cases h with
      | empty => rfl
      | invalidDigit hcs => simp [unsigned] at hcs
      | tooLarge hcs _ hle =>
        obtain ⟨rfl, -⟩ := List.append_eq_nil_iff.mp hcs.symm
        exact absurd hbound (Nat.not_lt.mpr hle)
  · rw [read_of_ne_nil hne, readDigits_eq_iff hbound]
    constructor
    · intro h
      cases h with
      | invalidDigit hcs hfront hvalue hc => exact .invalidDigit hcs hfront hvalue hc
      | tooLarge hcs hfront hle => exact .tooLarge hcs hfront hle
    · intro h
      cases h with
      | empty hcs => exact absurd hcs hne
      | invalidDigit hcs hfront hvalue hc => exact .invalidDigit hcs hfront hvalue hc
      | tooLarge hcs hfront hle => exact .tooLarge hcs hfront hle

end Decimal

end HtmlTemplate
