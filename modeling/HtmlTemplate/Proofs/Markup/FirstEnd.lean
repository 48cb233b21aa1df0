import HtmlTemplate.Proofs.Markup.Events

/-!
# The first end tag

Behind the start tag of an element stand the tags of others, some of the same name. The end
tag of the element is the first one at which there are more end tags of its name than start
tags. This module says that of a list of events, and compares it with brackets.

Results:
1. `endsExceed_tagsOf_iff`: counting the tags of a name.
2. `FirstEnd`: the first end tag. It is unique (`FirstEnd.unique`), and only the tags of the
   name matter (`firstEnd_tagsOf_iff`).
3. `firstEnd_of_balanced`, `not_firstEnd_of_neverBelow`: it is the closing bracket that the
   start tag belongs to.
-/

namespace HtmlTemplate

open Markup

/-! ## 1. Tags of a name -/

namespace SourceEvent

/-- A start tag of the name that is not self-closing. -/
def opens (name : TagName) : SourceEvent → Bool
  | startTag n selfClosing _ _ _ => n = name && !selfClosing
  | endTag _ _ _ => false
  | openWrapper => false
  | closeWrapper => false

/-- An end tag of the name. -/
def closes (name : TagName) : SourceEvent → Bool
  | endTag n _ _ => n = name
  | startTag _ _ _ _ _ => false
  | openWrapper => false
  | closeWrapper => false

/-- The event if it is a tag of the name, whether markers stand in it or not. -/
def tagOf? (name : TagName) : SourceEvent → Option SourceEvent
  | startTag n selfClosing _ start stop =>
    if n = name then some (startTag n selfClosing false start stop) else none
  | endTag n start stop => if n = name then some (endTag n start stop) else none
  | openWrapper => none
  | closeWrapper => none

theorem eq_endTag_of_tagOf? {name n : TagName} {start stop : Nat} {e : SourceEvent}
    (h : e.tagOf? name = some (.endTag n start stop)) : e = .endTag n start stop := by
  cases e with
  | startTag => simp [tagOf?] at h
  | endTag => simpa [tagOf?] using (Option.ite_none_right_eq_some.mp h).2
  | openWrapper | closeWrapper => cases h

end SourceEvent

/-- The tags of a name. -/
def tagsOf (name : TagName) (events : List SourceEvent) : List SourceEvent :=
  events.filterMap (SourceEvent.tagOf? name)

/-- There are more end tags of the name than start tags that are not self-closing. -/
def EndsExceed (name : TagName) (events : List SourceEvent) : Prop :=
  events.countP (SourceEvent.opens name) < events.countP (SourceEvent.closes name)

/-! ## 2. The first end tag -/

/-- The tag from `start` to `stop` is the first of the events at which the end tags of the name
exceed its start tags. -/
def FirstEnd (name : TagName) (events : List SourceEvent) (start stop : Nat) : Prop :=
  ∃ inside rest, events = inside ++ .endTag name start stop :: rest ∧
    EndsExceed name (inside ++ [.endTag name start stop]) ∧
      ∀ front, front <+: inside → ¬EndsExceed name front

section

variable {name : TagName} {events events' : List SourceEvent} {start stop start' stop' : Nat}

theorem FirstEnd.unique (h : FirstEnd name events start stop)
    (h' : FirstEnd name events start' stop') : start = start' ∧ stop = stop' := by
  obtain ⟨inside, rest, hevents, hexceed, hnot⟩ := h
  obtain ⟨inside', rest', hevents', hexceed', hnot'⟩ := h'
  rw [hevents] at hevents'
  rcases List.append_eq_append_iff.mp hevents' with ⟨more, rfl, hmore⟩ | ⟨more, rfl, hmore⟩
  · cases more with
    | nil =>
      cases hmore
      exact ⟨rfl, rfl⟩
    | cons e more =>
      cases hmore
      exact absurd hexceed (hnot' _ (by simp))
  · cases more with
    | nil =>
      cases hmore
      exact ⟨rfl, rfl⟩
    | cons e more =>
      cases hmore
      exact absurd hexceed' (hnot _ (by simp))

/-- Only the tags of the name are counted. -/
theorem endsExceed_tagsOf_iff : EndsExceed name (tagsOf name events) ↔ EndsExceed name events := by
  have hopens : (tagsOf name events).countP (SourceEvent.opens name) =
      events.countP (SourceEvent.opens name) := by
    rw [tagsOf, List.countP_filterMap]
    refine List.countP_congr fun e _ => ?_
    cases e <;> simp [SourceEvent.tagOf?, SourceEvent.opens] <;> split <;> simp_all
  have hcloses : (tagsOf name events).countP (SourceEvent.closes name) =
      events.countP (SourceEvent.closes name) := by
    rw [tagsOf, List.countP_filterMap]
    refine List.countP_congr fun e _ => ?_
    cases e <;> simp [SourceEvent.tagOf?, SourceEvent.closes] <;> split <;> simp_all
  rw [EndsExceed, EndsExceed, hopens, hcloses]

theorem tagsOf_append :
    tagsOf name (events ++ events') = tagsOf name events ++ tagsOf name events' :=
  List.filterMap_append

theorem tagsOf_endTag : tagsOf name [.endTag name start stop] = [.endTag name start stop] := by
  simp [tagsOf, SourceEvent.tagOf?]

/-- Only the tags of the name matter. -/
theorem firstEnd_tagsOf_iff :
    FirstEnd name (tagsOf name events) start stop ↔ FirstEnd name events start stop := by
  constructor
  · rintro ⟨inside, rest, hevents, hexceed, hnot⟩
    obtain ⟨x, y, rfl, rfl, hy⟩ := List.filterMap_eq_append_iff.mp hevents
    obtain ⟨z, e, w, rfl, hz, he, -⟩ := List.filterMap_eq_cons_iff.mp hy
    cases SourceEvent.eq_endTag_of_tagOf? he
    have hinside : tagsOf name (x ++ z) = tagsOf name x := by
      rw [tagsOf_append, show tagsOf name z = [] from List.filterMap_eq_nil_iff.mpr hz,
        List.append_nil]
    refine ⟨x ++ z, w, by simp, ?_, fun front hfront => ?_⟩
    · rw [← endsExceed_tagsOf_iff, tagsOf_append, hinside, tagsOf_endTag]
      exact hexceed
    · rw [← endsExceed_tagsOf_iff]
      refine hnot _ ?_
      show tagsOf name front <+: tagsOf name x
      rw [← hinside]
      exact hfront.filterMap _
  · rintro ⟨inside, rest, rfl, hexceed, hnot⟩
    refine ⟨tagsOf name inside, tagsOf name rest, ?_, ?_, fun front hfront => ?_⟩
    · rw [List.append_cons, tagsOf_append, tagsOf_append, tagsOf_endTag, ← List.append_cons]
    · rw [← tagsOf_endTag, ← tagsOf_append, endsExceed_tagsOf_iff]
      exact hexceed
    · obtain ⟨front', hfront', rfl⟩ := List.prefix_filterMap_iff.mp hfront
      exact fun h => hnot front' hfront' (endsExceed_tagsOf_iff.mp h)

/-! ## 3. Brackets -/

/-- The depth among the tags of a name counts its start tags and end tags. -/
theorem rise_element? (hvoid : isVoid name = false) (events : List SourceEvent) :
    Brackets.rise (SourceEvent.element? name) events =
      events.countP (SourceEvent.opens name) - events.countP (SourceEvent.closes name) := by
  induction events with
  | nil => rfl
  | cons e events ih =>
    rw [Brackets.rise_cons, ih, List.countP_cons, List.countP_cons]
    cases e with
    | startTag n selfClosing carries start stop =>
      by_cases hn : n = name
      · subst hn
        cases selfClosing <;>
          simp [SourceEvent.element?, SourceEvent.opens, SourceEvent.closes, Bracket.rise, hvoid]
        omega
      · simp [SourceEvent.element?, SourceEvent.opens, SourceEvent.closes, Bracket.rise, hn]
    | endTag n start stop =>
      by_cases hn : n = name <;>
        simp [SourceEvent.element?, SourceEvent.opens, SourceEvent.closes, Bracket.rise, hn]
      omega
    | openWrapper | closeWrapper =>
      simp [SourceEvent.element?, SourceEvent.opens, SourceEvent.closes, Bracket.rise]

theorem endsExceed_iff_rise (hvoid : isVoid name = false) :
    EndsExceed name events ↔ Brackets.rise (SourceEvent.element? name) events < 0 := by
  rw [EndsExceed, rise_element? hvoid]
  omega

/-- Behind tags that belong to each other, an end tag is the first. -/
theorem firstEnd_of_balanced (hvoid : isVoid name = false) {inside rest : List SourceEvent}
    (h : Brackets.Balanced (SourceEvent.element? name) inside) :
    FirstEnd name (inside ++ .endTag name start stop :: rest) start stop := by
  refine ⟨inside, rest, rfl, ?_, fun front hfront => ?_⟩
  · rw [endsExceed_iff_rise hvoid, Brackets.rise_append, h.rise_eq]
    simp [SourceEvent.element?, Bracket.rise]
  · rw [endsExceed_iff_rise hvoid]
    exact Int.not_lt.mpr (h.neverBelow front hfront)

/-- While an end tag is waited for, none is the first. -/
theorem not_firstEnd_of_neverBelow (hvoid : isVoid name = false)
    (h : Brackets.NeverBelow (SourceEvent.element? name) events) :
    ¬FirstEnd name events start stop := by
  rintro ⟨inside, rest, rfl, hexceed, -⟩
  rw [endsExceed_iff_rise hvoid] at hexceed
  exact absurd hexceed (Int.not_lt.mpr (h _ ⟨rest, by simp⟩))

end

end HtmlTemplate
