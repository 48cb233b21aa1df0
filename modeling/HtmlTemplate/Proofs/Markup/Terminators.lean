import HtmlTemplate.Proofs.Markup.Inert
import HtmlTemplate.Proofs.Markup.Spelling

/-!
# Where raw text and comments end

The text of a script or style ends at an end tag of its own name, a comment at `-->`. The lexer
looks for both byte by byte and remembers only how much of the end it has met. When a byte does
not go on with what has been met, that byte may still begin the end anew, so nothing is missed
(`</scr</script>`, `--->`).

Results:
1. `Matched.concat`: how much of a pattern has been met at the end of a text, when one more byte
   is read. A pattern whose first byte does not come back is met in at most one way.
2. `TagLexer.MatchesEndTag.step`, `TagLexer.MatchesEndTag.after`: a lexer in raw text.
3. `TagLexer.MatchesDashes.step`, `TagLexer.MatchesDashes.after`: a lexer in a comment.
4. `terminators_exact`: raw text and comments end at the first place where their end is complete.
-/

namespace HtmlTemplate

open Markup

/-! ## 1. Patterns -/

/-- The text ends in the first `matched` bytes of the pattern, and in no other number of them. -/
structure Matched (pattern text : List UInt8) (matched : Nat) : Prop where
  le_length : matched ≤ pattern.length
  suffix_iff : ∀ k, 0 < k → k ≤ pattern.length → (pattern.take k <:+ text ↔ k = matched)

theorem concat_suffix_concat {front text : List UInt8} {first byte : UInt8} :
    front ++ [first] <:+ text ++ [byte] ↔ front <:+ text ∧ first = byte := by
  rw [List.suffix_concat_iff]
  constructor
  · rintro (h | ⟨t, h, ht⟩)
    · simp at h
    · obtain ⟨hfront, hbyte⟩ := List.append_inj' h rfl
      exact ⟨hfront ▸ ht, (List.cons.inj hbyte).1⟩
  · rintro ⟨hfront, rfl⟩
    exact .inr ⟨front, rfl, hfront⟩

theorem take_succ_suffix_concat {pattern text : List UInt8} {k : Nat} (hk : k < pattern.length)
    {byte : UInt8} : pattern.take (k + 1) <:+ text ++ [byte] ↔
      pattern.take k <:+ text ∧ pattern[k]? = some byte := by
  rw [List.take_succ_eq_append_getElem hk, concat_suffix_concat, List.getElem?_eq_getElem hk,
    Option.some.injEq]

/-- How much of the pattern has been met after one more byte: the byte begins it, or goes on with
what has been met, or there is nothing left of that. -/
def nextMatched (pattern : List UInt8) (matched : Nat) (byte : UInt8) : Nat :=
  if pattern[0]? = some byte then 1
  else if 0 < matched ∧ pattern[matched]? = some byte then matched + 1
  else 0

namespace Matched

variable {pattern text : List UInt8} {matched : Nat} {byte : UInt8}

/-- Nothing of a pattern has been met before anything is read. -/
theorem nil (pattern : List UInt8) : Matched pattern [] 0 := by
  refine ⟨Nat.zero_le _, fun k hk hle => iff_of_false ?_ (Nat.ne_of_gt hk)⟩
  rw [List.suffix_nil, List.take_eq_nil_iff]
  rintro (rfl | rfl)
  · exact Nat.lt_irrefl 0 hk
  · exact Nat.not_lt_of_le hle hk

/-- If the first byte of the pattern does not come back in it, what has been met can only go on
or begin anew. -/
theorem concat (h : Matched pattern text matched)
    (hfirst : ∀ k, 0 < k → ∀ byte, pattern[0]? = some byte → pattern[k]? ≠ some byte)
    (byte : UInt8) : Matched pattern (text ++ [byte]) (nextMatched pattern matched byte) := by
  have hlt : ∀ {k}, pattern[k]? = some byte → k < pattern.length := fun hk =>
    (List.getElem?_eq_some_iff.mp hk).1
  refine ⟨?_, ?_⟩
  · unfold nextMatched
    split
    · next hbyte => exact hlt hbyte
    · split
      · next hbyte => exact hlt hbyte.2
      · exact Nat.zero_le _
  · rintro (_ | k) hk hle
    · exact absurd hk (Nat.lt_irrefl 0)
    rw [take_succ_suffix_concat hle]
    rcases Nat.eq_zero_or_pos k with rfl | hpos
    · -- One byte is met if it begins the pattern.
      unfold nextMatched
      by_cases hbyte : pattern[0]? = some byte
      · simp [hbyte]
      · simp only [List.take_zero, List.nil_suffix, hbyte, and_false, if_false, false_iff]
        split
        · omega
        · omega
    · -- More bytes are met if all but the last were met before.
      rw [h.suffix_iff k hpos (Nat.le_of_lt hle)]
      unfold nextMatched
      by_cases hbyte : pattern[0]? = some byte
      · have hne := hfirst k hpos byte hbyte
        simp only [hne, and_false, hbyte, if_true, false_iff]
        omega
      · simp only [hbyte, if_false]
        split
        · next hgo =>
          constructor
          · rintro ⟨rfl, -⟩
            rfl
          · intro hk
            obtain rfl : k = matched := Nat.succ.inj hk
            exact ⟨rfl, hgo.2⟩
        · next hgo =>
          refine iff_of_false ?_ (Nat.succ_ne_zero k)
          rintro ⟨rfl, hk⟩
          exact hgo ⟨hpos, hk⟩

/-- The whole pattern has been met. -/
theorem eq_length_iff (h : Matched pattern text matched) (hne : pattern ≠ []) :
    pattern <:+ text ↔ matched = pattern.length := by
  have hwhole := h.suffix_iff pattern.length (List.length_pos_iff.mpr hne) (Nat.le_refl _)
  rw [List.take_length] at hwhole
  rw [hwhole, eq_comm]

end Matched

/-- None of the fronts of the bytes ends so. -/
def Unended (ends : List UInt8 → Prop) (bytes : List UInt8) : Prop :=
  ∀ front, front <+: bytes → ¬ends front

instance (ends : List UInt8 → Prop) [DecidablePred ends] (bytes : List UInt8) :
    Decidable (Unended ends bytes) :=
  decidable_of_iff (∀ front ∈ bytes.inits, ¬ends front) (by simp [Unended])

/-- What each byte keeps that does not complete the end is kept up to the end. -/
theorem TagLexer.keeps_of_unended {inside : TagState → Prop} {ends : List UInt8 → Prop}
    {P : List UInt8 → TagLexer → Prop} (hinside : ∀ bytes l, P bytes l → inside l.state)
    (hstep : ∀ bytes l byte, P bytes l → ¬ends (bytes ++ [byte]) →
      (l.step byte).2 = none ∧ P (bytes ++ [byte]) (l.step byte).1)
    {l : TagLexer} {bytes : List UInt8} (h : P bytes l) (more : List UInt8)
    (hnot : ∀ front, front <+: more → ¬ends (bytes ++ front)) :
    l.Keeps inside more ∧ P (bytes ++ more) (l.after more) := by
  induction more generalizing l bytes with
  | nil =>
    rw [List.append_nil]
    exact ⟨trivial, h⟩
  | cons byte more ih =>
    obtain ⟨hnone, hnext⟩ := hstep bytes l byte h (hnot [byte] (List.prefix_append [byte] more))
    have hrest : ∀ front, front <+: more → ¬ends (bytes ++ [byte] ++ front) := by
      intro front hfront
      rw [List.append_assoc]
      exact hnot (byte :: front) (List.cons_prefix_cons.mpr ⟨rfl, hfront⟩)
    obtain ⟨hkeeps, hafter⟩ := ih hnext hrest
    rw [List.append_cons]
    exact ⟨⟨hnone, hinside _ _ hnext, hkeeps⟩, hafter⟩

/-! ## 2. Raw text -/

/-- The byte ends the name in an end tag. -/
def EndsName (byte : UInt8) : Prop := byte = '>'.toUInt8 ∨ isSpace byte = true

instance (byte : UInt8) : Decidable (EndsName byte) := inferInstanceAs (Decidable (_ ∨ _))

/-- The bytes end in an end tag of the name, up to the byte that ends the name. -/
def EndsRawText (name : TagName) (bytes : List UInt8) : Prop :=
  ∃ front tag byte, bytes = front ++ tag ++ [byte] ∧ SpelledAs endFront name.toList tag ∧
    EndsName byte

/-- What end tags of the name begin with, in lower case. -/
def endTagPattern (name : TagName) : List UInt8 := endFront ++ name.toList

/-- Letters apart, no two bytes are alike. -/
theorem lower_eq_iff {byte other : UInt8} (h : other < 0x41) :
    lower byte = other ↔ byte = other := by
  unfold lower
  split
  · grind
  · rfl

theorem spelledAs_endFront_iff {name : TagName} {tag : List UInt8} :
    SpelledAs endFront name.toList tag ↔ tag.map lower = endTagPattern name := by
  constructor
  · rintro ⟨rest, rfl, hname⟩
    rw [List.map_append, hname]
    rfl
  · intro h
    obtain ⟨front, rest, rfl, hfront, hrest⟩ := List.map_eq_append_iff.mp h
    refine ⟨rest, ?_, hrest⟩
    obtain ⟨a, front, rfl, ha, hfront⟩ := List.map_eq_cons_iff.mp hfront
    obtain ⟨b, front, rfl, hb, hfront⟩ := List.map_eq_cons_iff.mp hfront
    rw [lower_eq_iff (by decide)] at ha hb
    rw [List.map_eq_nil_iff.mp hfront, ha, hb]
    rfl

theorem endsRawText_concat {name : TagName} {bytes : List UInt8} {byte : UInt8} :
    EndsRawText name (bytes ++ [byte]) ↔
      endTagPattern name <:+ bytes.map lower ∧ EndsName byte := by
  constructor
  · rintro ⟨front, tag, last, heq, htag, hlast⟩
    obtain ⟨rfl, hbyte⟩ := List.append_inj' heq rfl
    obtain ⟨rfl, -⟩ := List.cons.inj hbyte
    refine ⟨⟨front.map lower, ?_⟩, hlast⟩
    rw [List.map_append, spelledAs_endFront_iff.mp htag]
  · rintro ⟨⟨front, hfront⟩, hbyte⟩
    obtain ⟨front, tag, rfl, -, htag⟩ := List.map_eq_append_iff.mp hfront.symm
    exact ⟨front, tag, byte, rfl, spelledAs_endFront_iff.mpr htag, hbyte⟩

theorem endsRawText_iff {name : TagName} {bytes : List UInt8} :
    EndsRawText name bytes ↔
      endTagPattern name <:+ bytes.dropLast.map lower ∧ bytes.getLast?.any EndsName = true := by
  rcases List.eq_nil_or_concat' bytes with rfl | ⟨bytes, byte, rfl⟩
  · simp [EndsRawText]
  · simp [endsRawText_concat]

instance (name : TagName) : DecidablePred (EndsRawText name) := fun _ =>
  decidable_of_iff _ endsRawText_iff.symm

section

variable {name : TagName}

@[simp] theorem length_endTagPattern : (endTagPattern name).length = name.size + 2 := by
  simp [endTagPattern, endFront]

theorem endTagPattern_zero : (endTagPattern name)[0]? = some '<'.toUInt8 := rfl

theorem endTagPattern_one : (endTagPattern name)[1]? = some '/'.toUInt8 := rfl

theorem endTagPattern_zero_iff {byte : UInt8} :
    (endTagPattern name)[0]? = some (lower byte) ↔ byte = '<'.toUInt8 := by
  rw [endTagPattern_zero, Option.some.injEq, eq_comm, lower_eq_iff (by decide)]

theorem endTagPattern_one_iff {byte : UInt8} :
    (endTagPattern name)[1]? = some (lower byte) ↔ byte = '/'.toUInt8 := by
  rw [endTagPattern_one, Option.some.injEq, eq_comm, lower_eq_iff (by decide)]

theorem endTagPattern_add_two (k : Nat) : (endTagPattern name)[k + 2]? = name[k]? := by
  simp [endTagPattern, endFront]

/-- The `<` of an end tag does not come back in it. -/
theorem endTagPattern_ne_first (hname : '<'.toUInt8 ∉ name) (k : Nat) (hk : 0 < k) (byte : UInt8)
    (hbyte : (endTagPattern name)[0]? = some byte) : (endTagPattern name)[k]? ≠ some byte := by
  obtain rfl : '<'.toUInt8 = byte := Option.some.inj hbyte
  match k, hk with
  | 1, _ =>
    rw [endTagPattern_one]
    decide
  | k + 2, _ =>
    rw [endTagPattern_add_two]
    exact fun h => hname (Array.mem_of_getElem? h)

/-- Scripts and styles are written with letters. -/
theorem not_mem_of_holdsRawText (h : holdsRawText name = true) : '<'.toUInt8 ∉ name := by
  obtain ⟨n, hn, hname⟩ := List.any_eq_true.mp h
  obtain rfl := of_decide_eq_true hname
  have hall : ∀ n ∈ rawTextNames, '<'.toUInt8 ∉ TagName.ofString n := by decide +kernel
  exact hall n hn

end

namespace TagLexer

variable {l : TagLexer} {name : TagName} {bytes : List UInt8} {matched : Nat} {byte : UInt8}

/-- The lexer has read the bytes of raw text, and knows how much of the end tag they end in. -/
structure MatchesEndTag (l : TagLexer) (name : TagName) (bytes : List UInt8) (matched : Nat) :
    Prop where
  state : l.state = .rawText matched
  rawName : l.rawName = name
  met : Matched (endTagPattern name) (bytes.map lower) matched
  start : 0 < matched → l.tagStart + matched = l.offset

/-- A byte of raw text that does not end it. -/
theorem readRawText_eq (hnot : ¬(matched = l.rawName.size + 2 ∧ EndsName byte)) :
    l.readRawText matched byte =
      ({ l with
          tagStart := if byte = '<'.toUInt8 then l.offset else l.tagStart
          state := .rawText (nextMatched (endTagPattern l.rawName) matched (lower byte)) },
        none) := by
  have hname : 2 ≤ matched → (endTagPattern l.rawName)[matched]? = l.rawName[matched - 2]? := by
    intro hle
    obtain ⟨k, rfl⟩ := Nat.exists_eq_add_of_le' hle
    exact endTagPattern_add_two k
  unfold readRawText nextMatched
  by_cases hlt : byte = '<'.toUInt8
  · simp only [hlt, endTagPattern_zero_iff.mpr hlt, if_true]
  · rw [if_neg hlt, if_neg hlt, if_neg (mt endTagPattern_zero_iff.mp hlt)]
    split
    · next hm =>
      obtain ⟨rfl, rfl⟩ := hm
      rw [if_pos ⟨Nat.one_pos, endTagPattern_one_iff.mpr rfl⟩]
    · next hone =>
      split
      · next hm => rw [if_pos ⟨by omega, (hname hm.1).trans hm.2⟩]
      · next hmore =>
        have hlost : ¬(0 < matched ∧ (endTagPattern l.rawName)[matched]? = some (lower byte)) := by
          rintro ⟨hpos, hbyte⟩
          rcases Nat.lt_or_eq_of_le (Nat.succ_le_of_lt hpos) with hle | rfl
          · exact hmore ⟨hle, (hname hle).symm.trans hbyte⟩
          · exact hone ⟨rfl, endTagPattern_one_iff.mp hbyte⟩
        rw [if_neg fun h => hnot ⟨h.1, .inl h.2⟩, if_neg fun h => hnot ⟨h.1, .inr h.2⟩,
          if_neg hlost]

namespace MatchesEndTag

/-- The end tag is complete, but for the byte that ends its name. -/
theorem suffix_iff (h : l.MatchesEndTag name bytes matched) :
    endTagPattern name <:+ bytes.map lower ↔ matched = name.size + 2 := by
  rw [h.met.eq_length_iff (by simp [endTagPattern, endFront]), length_endTagPattern]

theorem step (h : l.MatchesEndTag name bytes matched) (hname : '<'.toUInt8 ∉ name)
    (hnot : ¬EndsRawText name (bytes ++ [byte])) :
    (l.step byte).2 = none ∧ (l.step byte).1.MatchesEndTag name (bytes ++ [byte])
      (nextMatched (endTagPattern name) matched (lower byte)) := by
  obtain rfl := h.rawName
  have hread : l.read byte = l.readRawText matched byte := by
    unfold TagLexer.read
    rw [h.state]
  rw [endsRawText_concat, h.suffix_iff] at hnot
  rw [readRawText_eq hnot] at hread
  have hmet := h.met.concat (endTagPattern_ne_first hname) (lower byte)
  unfold TagLexer.step
  rw [hread]
  refine ⟨rfl, rfl, rfl, by simpa using hmet, ?_⟩
  have hstart := h.start
  simp only [nextMatched, endTagPattern_zero_iff]
  split
  · exact fun _ => rfl
  · split <;> omega

/-- Up to the first end tag of its name, raw text is not left and no tag is reported. -/
theorem after (h : l.MatchesEndTag name [] 0) (hname : '<'.toUInt8 ∉ name)
    (hnot : Unended (EndsRawText name) bytes) :
    l.Keeps (·.inRawText = true) bytes ∧
      ∃ matched, (l.after bytes).MatchesEndTag name bytes matched := by
  refine keeps_of_unended (P := fun bytes l => ∃ matched, l.MatchesEndTag name bytes matched)
    ?_ ?_ ⟨0, h⟩ bytes hnot
  · rintro bytes l ⟨matched, h⟩
    rw [h.state]
    rfl
  · rintro bytes l byte ⟨matched, h⟩ hnot
    exact (h.step hname hnot).imp_right fun hnext => ⟨_, hnext⟩

/-- The byte that ends the name in the end tag ends raw text too. -/
theorem step_of_endsName (h : l.MatchesEndTag name bytes (name.size + 2)) (hbyte : EndsName byte) :
    l.step byte =
      if byte = '>'.toUInt8 then
        ({ l with name := name, state := .text, offset := l.offset + 1 },
          some (.closing name l.tagStart (l.offset + 1)))
      else ({ l with name := name, state := .inEndTag, offset := l.offset + 1 }, none) := by
  obtain rfl := h.rawName
  have hnot : byte ≠ '<'.toUInt8 := by
    rintro rfl
    exact absurd hbyte (by decide)
  unfold TagLexer.step TagLexer.read
  rw [h.state]
  have hslash : ¬(l.rawName.size + 2 = 1 ∧ byte = '/'.toUInt8) := by omega
  have hletter : ¬(2 ≤ l.rawName.size + 2 ∧
      l.rawName[l.rawName.size + 2 - 2]? = some (lower byte)) := by simp
  simp only [readRawText, if_neg hnot, if_neg hslash, if_neg hletter, true_and]
  split
  · rfl
  · next hclose => rw [if_pos (hbyte.resolve_left hclose)]

end MatchesEndTag

/-- The lexer has just read a start tag of the name that is not self-closing. -/
def BehindStartTag (l : TagLexer) (name : TagName) : Prop :=
  ∃ before byte stop, TagLexer.step before byte = (l, some (.opening name false stop))

/-- Only the `>` of a start tag is reported as one. -/
theorem read_eq_endStartTag {selfClosing : Bool} {stop : Nat}
    (h : (l.read byte).2 = some (.opening name selfClosing stop)) :
    l.read byte = l.endStartTag := by
  revert h
  unfold TagLexer.read
  cases l.state with
  | tagName =>
    simp only [readTagName]
    split
    · exact fun _ => rfl
    · (repeat' split) <;> simp
  | inTag =>
    simp only [readInTag]
    split
    · exact fun _ => rfl
    · (repeat' split) <;> simp
  | endTagName =>
    simp only [readEndTagName]
    (repeat' split) <;> simp [endEndTag]
  | rawText matched =>
    simp only [readRawText]
    (repeat' split) <;> simp [endEndTag]
  | inEndTag =>
    simp only
    split <;> simp [endEndTag]
  | _ => simp

/-- Behind the start tag of a script or style, nothing of the end tag has been met. -/
theorem BehindStartTag.matchesEndTag (h : l.BehindStartTag name)
    (hname : holdsRawText name = true) :
    l.MatchesEndTag name [] 0 := by
  obtain ⟨before, byte, stop, hstep⟩ := h
  suffices hraw : l.state = .rawText 0 ∧ l.rawName = name from
    ⟨hraw.1, hraw.2, .nil _, fun h => absurd h (Nat.lt_irrefl 0)⟩
  have htag : (before.read byte).2 = some (.opening name false stop) := congrArg Prod.snd hstep
  have hend := read_eq_endStartTag htag
  obtain ⟨rfl, hself⟩ : before.name = name ∧ before.selfClosing = false := by
    rw [hend] at htag
    unfold endStartTag at htag
    split at htag <;> simp_all
  have hnext := congrArg Prod.fst hstep
  unfold TagLexer.step at hnext
  rw [hend] at hnext
  unfold endStartTag at hnext
  simp only [hself, hname, Bool.not_false, Bool.and_true, if_true] at hnext
  subst hnext
  exact ⟨rfl, rfl⟩

end TagLexer

/-! ## 3. Comments -/

/-- What comments begin with. -/
def commentFront : List UInt8 := "<!--".toUTF8.data.toList

/-- The bytes end in the end of a comment. -/
def EndsComment (bytes : List UInt8) : Prop := "-->".toUTF8.data.toList <:+ bytes

instance : DecidablePred EndsComment := fun bytes =>
  inferInstanceAs (Decidable (_ <:+ bytes))

/-- That many dashes. -/
def dashBytes (count : Nat) : List UInt8 := List.replicate count '-'.toUInt8

theorem dashBytes_succ_suffix_concat {count : Nat} {bytes : List UInt8} {byte : UInt8} :
    dashBytes (count + 1) <:+ bytes ++ [byte] ↔ dashBytes count <:+ bytes ∧ byte = '-'.toUInt8 := by
  rw [dashBytes, List.replicate_succ', concat_suffix_concat, eq_comm (a := byte)]
  rfl

theorem endsComment_concat {bytes : List UInt8} {byte : UInt8} :
    EndsComment (bytes ++ [byte]) ↔ dashBytes 2 <:+ bytes ∧ byte = '>'.toUInt8 := by
  have hend : "-->".toUTF8.data.toList = dashBytes 2 ++ ['>'.toUInt8] := by decide +kernel
  rw [EndsComment, hend, concat_suffix_concat, eq_comm (a := byte)]

namespace TagLexer

variable {l : TagLexer} {bytes : List UInt8} {dashes : Nat} {byte : UInt8}

/-- The lexer has read the bytes of a comment, and knows whether they end in a dash or in two. -/
structure MatchesDashes (l : TagLexer) (bytes : List UInt8) (dashes : Nat) : Prop where
  state : l.state = .comment dashes
  suffix_iff : ∀ k, k ≤ 2 → (dashBytes k <:+ bytes ↔ k ≤ dashes)
  le_two : dashes ≤ 2

namespace MatchesDashes

theorem step (h : l.MatchesDashes bytes dashes) (hnot : ¬EndsComment (bytes ++ [byte])) :
    (l.step byte).2 = none ∧
      ∃ dashes, (l.step byte).1.MatchesDashes (bytes ++ [byte]) dashes := by
  rw [endsComment_concat, h.suffix_iff 2 (Nat.le_refl 2), and_comm] at hnot
  have hstep : l.step byte =
      ({ l with state := .afterComment dashes byte, offset := l.offset + 1 }, none) := by
    unfold TagLexer.step TagLexer.read
    rw [h.state]
  rw [hstep]
  refine ⟨rfl, if byte = '-'.toUInt8 then min (dashes + 1) 2 else 0, ?_, ?_, ?_⟩
  · unfold TagState.afterComment
    rw [if_neg hnot]
    split <;> rfl
  · rintro (_ | k) hk
    · simp [dashBytes]
    · rw [dashBytes_succ_suffix_concat, h.suffix_iff k (Nat.le_of_succ_le hk)]
      split
      · next hbyte =>
        simp only [hbyte, and_true]
        omega
      · next hbyte => simp [hbyte]
  · split <;> omega

/-- Up to its first end, a comment is not left and no tag is reported. -/
theorem after (h : l.MatchesDashes [] 0) (hnot : Unended EndsComment bytes) :
    l.Keeps (·.inComment = true) bytes ∧
      ∃ dashes, (l.after bytes).MatchesDashes bytes dashes := by
  refine keeps_of_unended (P := fun bytes l => ∃ dashes, l.MatchesDashes bytes dashes)
    ?_ (fun _ _ _ ⟨_, h⟩ hnot => h.step hnot) ⟨0, h⟩ bytes hnot
  rintro bytes l ⟨dashes, h⟩
  rw [h.state]
  rfl

/-- Behind two dashes, a `>` ends the comment. -/
theorem step_of_ends (h : l.MatchesDashes bytes dashes) (hends : EndsComment (bytes ++ [byte])) :
    l.step byte = ({ l with state := .text, offset := l.offset + 1 }, none) := by
  obtain ⟨hdashes, rfl⟩ := endsComment_concat.mp hends
  have htwo := (h.suffix_iff 2 (Nat.le_refl 2)).mp hdashes
  unfold TagLexer.step TagLexer.read
  rw [h.state]
  simp only [TagState.afterComment]
  rw [if_neg (by decide), if_pos ⟨trivial, htwo⟩]

end MatchesDashes

/-- The lexer has just read the front of a comment, in text. -/
def BehindCommentFront (l : TagLexer) : Prop :=
  ∃ before : TagLexer, (before.state = .text ∨ before.state = .lessThan) ∧
    before.after commentFront = l

theorem BehindCommentFront.matchesDashes (h : l.BehindCommentFront) : l.MatchesDashes [] 0 := by
  obtain ⟨⟨offset, state, tagStart, name, selfClosing, rawName⟩, hstate, rfl⟩ := h
  refine ⟨?_, fun k _ => by simp [dashBytes], Nat.zero_le 2⟩
  have hfront : commentFront = ['<'.toUInt8, '!'.toUInt8, '-'.toUInt8, '-'.toUInt8] := by
    decide +kernel
  rw [hfront]
  rcases hstate with hstate | hstate
  · cases hstate
    rfl
  · cases hstate
    rfl

theorem offset_after (l : TagLexer) (bytes : List UInt8) :
    (l.after bytes).offset = l.offset + bytes.length := by
  induction bytes generalizing l with
  | nil => rfl
  | cons byte bytes ih =>
    show ((l.step byte).1.after bytes).offset = l.offset + (bytes.length + 1)
    rw [ih, offset_step, Nat.add_assoc, Nat.add_comm 1]

end TagLexer

/-! ## 4. The first end -/

namespace TagReader

theorem step_of_none {r : TagReader} {byte : UInt8} (h : (r.lexer.step byte).2 = none)
    (around : Surroundings) :
    r.step around byte = ({ r with lexer := (r.lexer.step byte).1 }, none) := by
  obtain ⟨lexer, table⟩ := r
  have hstep : lexer.step byte = ((lexer.step byte).1, none) := Prod.ext rfl h
  unfold step
  simp only
  rw [hstep]

/-- While no tag is reported, the table stays as it is. -/
theorem feed_of_keeps {inside : TagState → Prop} {r : TagReader} {bytes : List UInt8}
    (h : r.lexer.Keeps inside bytes) (around : Surroundings) :
    r.feed around bytes = ({ r with lexer := r.lexer.after bytes }, none) := by
  induction bytes generalizing r with
  | nil => rfl
  | cons byte bytes ih =>
    obtain ⟨hnone, -, hrest⟩ := h
    rw [feed, step_of_none hnone]
    exact ih hrest

/-- Raw text goes on up to the first end tag of the name, and ends with the byte behind the name in
that tag. No tag is recognised before. -/
structure EndsRawTextAtFirst (r : TagReader) (name : TagName) : Prop where
  inside : ∀ bytes, Unended (EndsRawText name) bytes →
    r.lexer.Keeps (·.inRawText = true) bytes ∧
      ∀ around, r.feed around bytes = ({ r with lexer := r.lexer.after bytes }, none)
  /-- A `>` ends the end tag, which is reported as one that begins at its `<`. -/
  closed : ∀ front tag, Unended (EndsRawText name) (front ++ tag) →
    SpelledAs endFront name.toList tag →
    ∃ next, (r.lexer.after (front ++ tag)).step '>'.toUInt8 =
        (next, some (.closing name (r.offset + front.length)
          (r.offset + (front ++ tag).length + 1))) ∧
      next.state = .text
  /-- White space leads into the end tag, which begins at its `<`. -/
  spaced : ∀ front tag byte, Unended (EndsRawText name) (front ++ tag) →
    SpelledAs endFront name.toList tag → isSpace byte = true →
    ∃ next, (r.lexer.after (front ++ tag)).step byte = (next, none) ∧ next.state = .inEndTag ∧
      next.name = name ∧ next.tagStart = r.offset + front.length

/-- A comment goes on up to the first `-->`, behind which text follows. No tag is recognised
before. -/
structure EndsCommentAtFirst (r : TagReader) : Prop where
  inside : ∀ bytes, Unended EndsComment bytes →
    r.lexer.Keeps (·.inComment = true) bytes ∧
      ∀ around, r.feed around bytes = ({ r with lexer := r.lexer.after bytes }, none)
  closed : ∀ bytes byte, Unended EndsComment bytes → EndsComment (bytes ++ [byte]) →
    ∃ next, (r.lexer.after bytes).step byte = (next, none) ∧ next.state = .text

variable {r : TagReader} {name : TagName}

/-- Where the end tag has been met, the lexer knows where it begins. -/
theorem tagStart_of_spelled (h : r.lexer.MatchesEndTag name [] 0) (hname : '<'.toUInt8 ∉ name)
    {front tag : List UInt8} (hnot : Unended (EndsRawText name) (front ++ tag))
    (htag : SpelledAs endFront name.toList tag) :
    (r.lexer.after (front ++ tag)).MatchesEndTag name (front ++ tag) (name.size + 2) ∧
      (r.lexer.after (front ++ tag)).tagStart = r.offset + front.length := by
  obtain ⟨-, matched, hafter⟩ := h.after hname hnot
  rw [spelledAs_endFront_iff] at htag
  have hsuffix : endTagPattern name <:+ (front ++ tag).map lower := by
    rw [List.map_append, htag]
    exact List.suffix_append _ _
  obtain rfl := hafter.suffix_iff.mp hsuffix
  refine ⟨hafter, ?_⟩
  have hstart := hafter.start (Nat.succ_pos _)
  have hlength := congrArg List.length htag
  rw [TagLexer.offset_after] at hstart
  simp only [List.length_map, length_endTagPattern, List.length_append] at hlength hstart
  show _ = r.lexer.offset + front.length
  omega

theorem endsRawTextAtFirst (h : r.lexer.BehindStartTag name) (hraw : holdsRawText name = true) :
    r.EndsRawTextAtFirst name := by
  have hmatches := h.matchesEndTag hraw
  have hname := not_mem_of_holdsRawText hraw
  refine ⟨fun bytes hnot => ?_, fun front tag hnot htag => ?_,
    fun front tag byte hnot htag hb => ?_⟩
  · obtain ⟨hkeeps, -⟩ := hmatches.after hname hnot
    exact ⟨hkeeps, feed_of_keeps hkeeps⟩
  · obtain ⟨hend, hstart⟩ := tagStart_of_spelled hmatches hname hnot htag
    have hstep := hend.step_of_endsName (.inl rfl)
    rw [if_pos rfl, hstart, TagLexer.offset_after] at hstep
    exact ⟨_, hstep, rfl⟩
  · obtain ⟨hend, hstart⟩ := tagStart_of_spelled hmatches hname hnot htag
    have hne : byte ≠ '>'.toUInt8 := by
      rintro rfl
      exact absurd hb (by decide)
    have hstep := hend.step_of_endsName (.inr hb)
    rw [if_neg hne] at hstep
    exact ⟨_, hstep, rfl, rfl, hstart⟩

theorem endsCommentAtFirst (h : r.lexer.BehindCommentFront) : r.EndsCommentAtFirst := by
  refine ⟨fun bytes hnot => ?_, fun bytes byte hnot hends => ?_⟩
  · obtain ⟨hkeeps, -⟩ := h.matchesDashes.after hnot
    exact ⟨hkeeps, feed_of_keeps hkeeps⟩
  · obtain ⟨-, dashes, hafter⟩ := h.matchesDashes.after hnot
    exact ⟨_, hafter.step_of_ends hends, rfl⟩

end TagReader

/-- Raw text and comments end at the first place where their end is complete, whatever bytes stand
in front of it. -/
theorem terminators_exact (r : TagReader) :
    (∀ name, r.lexer.BehindStartTag name → holdsRawText name = true →
      r.EndsRawTextAtFirst name) ∧
    (r.lexer.BehindCommentFront → r.EndsCommentAtFirst) :=
  ⟨fun _ => TagReader.endsRawTextAtFirst, TagReader.endsCommentAtFirst⟩

/-- A reader behind `<script>`. -/
def scriptStarted : TagReader := { lexer := TagLexer.after {} "<script>".toUTF8.data.toList }

/-- A reader behind `<!--`. -/
def commentStarted : TagReader := { lexer := TagLexer.after {} commentFront }

/-- In `</scr</SCRIPT ` and in `--->`, the end begins anew behind a part of it. -/
theorem terminators_exact_of_restarts :
    scriptStarted.lexer.BehindStartTag (TagName.ofString "script") ∧
    commentStarted.lexer.BehindCommentFront ∧
    (∃ next, (scriptStarted.lexer.after "</scr</SCRIPT".toUTF8.data.toList).step ' '.toUInt8 =
        (next, none) ∧ next.state = .inEndTag ∧ next.name = TagName.ofString "script" ∧
      next.tagStart = 13) ∧
    ∃ next, (commentStarted.lexer.after "---".toUTF8.data.toList).step '>'.toUInt8 =
      (next, none) ∧ next.state = .text := by
  have hscript : scriptStarted.lexer.BehindStartTag (TagName.ofString "script") :=
    ⟨TagLexer.after {} "<script".toUTF8.data.toList, '>'.toUInt8, 8, by decide +kernel⟩
  have hcomment : commentStarted.lexer.BehindCommentFront := ⟨{}, .inl rfl, rfl⟩
  have hraw : holdsRawText (TagName.ofString "script") = true := by decide +kernel
  refine ⟨hscript, hcomment, ?_, ?_⟩
  · exact ((terminators_exact scriptStarted).1 _ hscript hraw).spaced "</scr".toUTF8.data.toList
      "</SCRIPT".toUTF8.data.toList ' '.toUInt8 (by decide +kernel)
      (spelledAs_endFront_iff.mpr (by decide +kernel)) (by decide +kernel)
  · exact ((terminators_exact commentStarted).2 hcomment).closed _ _ (by decide +kernel)
      (by decide +kernel)

end HtmlTemplate
