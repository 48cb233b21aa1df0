import HtmlTemplate.Proofs.Markup.Spelling
import HtmlTemplate.Proofs.Template.Brackets

/-!
# Tags and wrappers in their order

What a source consists of, told apart as little as possible: literal bytes and places of
tokens. `Scan` lists the tags and wrapper tokens that are met in it. It knows nothing of
which elements wait for their end tags, so that what a table of elements enters can be
compared with it.

Results:
1. `Scan.step`, `SourceEvent.ofItems`: the events of a source.
2. `SourceEvent.wrapper?`, `SourceEvent.element?`: which events are brackets, among the wrappers and
   among the tags of one name.
3. `Scan.Right`: the tags listed are spelled as they say and stand behind each other. Each
   item keeps it (`Right.step`, `Right.foldl`).
-/

namespace HtmlTemplate

open Markup

/-! ## 1. Items and events -/

/-- A literal byte, or the place of a token. -/
inductive Item where
  | byte (byte : UInt8)
  | content
  | openWrapper
  | closeWrapper
  /-- A plain token; `kept` tells whether its declaration has a callback. -/
  | plain (kept : Bool)
  deriving DecidableEq

/-- The literal byte that an item is. -/
def Item.byte? : Item → Option UInt8
  | byte b => some b
  | content => none
  | openWrapper => none
  | closeWrapper => none
  | plain _ => none

/-- What is met in a source. Offsets are in literal bytes. -/
inductive SourceEvent where
  /-- A start tag; `carries` tells whether attribute markers stand in it. -/
  | startTag (name : TagName) (selfClosing carries : Bool) (start stop : Nat)
  | endTag (name : TagName) (start stop : Nat)
  | openWrapper
  | closeWrapper
  deriving DecidableEq

namespace SourceEvent

/-- Which bracket an event is among the wrappers. -/
def wrapper? : SourceEvent → Option Bracket
  | openWrapper => some .opening
  | closeWrapper => some .closing
  | startTag _ _ _ _ _ => none
  | endTag _ _ _ => none

/-- Which bracket an event is among the tags of the elements with a name. A start tag that
closes its element has no end tag. -/
def element? (name : TagName) : SourceEvent → Option Bracket
  | startTag n selfClosing _ _ _ =>
    if n = name ∧ (selfClosing || isVoid n) = false then some .opening else none
  | endTag n _ _ => if n = name then some .closing else none
  | openWrapper => none
  | closeWrapper => none

/-- The offsets between which a tag stands. -/
def span? : SourceEvent → Option (Nat × Nat)
  | startTag _ _ _ start stop => some (start, stop)
  | endTag _ start stop => some (start, stop)
  | openWrapper => none
  | closeWrapper => none

end SourceEvent

/-- What has been met so far. -/
structure Scan where
  lexer : TagLexer := {}
  /-- Attribute markers have been met in the start tag being read. -/
  carries : Bool := false
  events : List SourceEvent := []

namespace Scan

/-- A token stands at the current place. -/
def interrupt (s : Scan) : Scan := { s with lexer := s.lexer.interrupt }

def add (s : Scan) (e : SourceEvent) : Scan := { s with events := s.events ++ [e] }

/-- Reads a literal byte, which may end a tag. -/
def read (s : Scan) (byte : UInt8) : Scan :=
  match s.lexer.step byte with
  | (l, none) => { s with lexer := l }
  | (l, some (.opening name selfClosing stop)) =>
    { lexer := l
      carries := false
      events := s.events ++ [.startTag name selfClosing s.carries s.lexer.tagStart stop] }
  | (l, some (.closing name start stop)) =>
    { s with lexer := l, events := s.events ++ [.endTag name start stop] }

def step (s : Scan) : Item → Scan
  | .byte byte => s.read byte
  | .content => s.interrupt
  | .openWrapper => s.interrupt.add .openWrapper
  | .closeWrapper => s.interrupt.add .closeWrapper
  | .plain kept =>
    { s.interrupt with carries := s.carries || (kept && s.lexer.interrupt.state.inStartTag) }

end Scan

/-- The events in a list of items. -/
def SourceEvent.ofItems (items : List Item) : List SourceEvent := (items.foldl Scan.step {}).events

/-! ## 2. What follows what -/

namespace Scan

/-- Events that have been listed stay. -/
theorem prefix_events_step (s : Scan) (i : Item) : s.events <+: (s.step i).events := by
  cases i with
  | byte byte =>
    unfold step read
    simp only
    split
    · exact List.prefix_rfl
    · exact List.prefix_append _ _
    · exact List.prefix_append _ _
  | content | plain => exact List.prefix_rfl
  | openWrapper | closeWrapper => exact List.prefix_append _ _

theorem prefix_events_foldl (s : Scan) (items : List Item) :
    s.events <+: (items.foldl Scan.step s).events := by
  induction items generalizing s with
  | nil => exact List.prefix_rfl
  | cons i items ih => exact (s.prefix_events_step i).trans (ih (s.step i))

end Scan

/-! ## 3. Where tags stand -/

/-- A tag is spelled in the literal bytes as the event says. -/
def SourceEvent.Spelled (html : List UInt8) : SourceEvent → Prop
  | startTag name selfClosing _ start stop =>
    (start < stop ∧ stop ≤ html.length ∧ html[stop - 1]? = some '>'.toUInt8 ∧
      Begins startFront name (html.drop start)) ∧
      (selfClosing = true → EndsInSlash ((html.take stop).drop start).dropLast)
  | endTag name start stop =>
    start < stop ∧ stop ≤ html.length ∧ html[stop - 1]? = some '>'.toUInt8 ∧
      Begins endFront name (html.drop start)
  | openWrapper => True
  | closeWrapper => True

/-- Bytes behind a tag do not matter. -/
theorem SourceEvent.Spelled.append {html : List UInt8} {e : SourceEvent} (h : e.Spelled html)
    (more : List UInt8) : e.Spelled (html ++ more) := by
  have htag : ∀ {front : List UInt8} {name : TagName} {start stop : Nat},
      start < stop ∧ stop ≤ html.length ∧ html[stop - 1]? = some '>'.toUInt8 ∧
        Begins front name (html.drop start) →
      start < stop ∧ stop ≤ (html ++ more).length ∧
        (html ++ more)[stop - 1]? = some '>'.toUInt8 ∧
          Begins front name ((html ++ more).drop start) := by
    rintro front name start stop ⟨hlt, hle, hlast, hbegins⟩
    refine ⟨hlt, Nat.le_trans hle (by simp), ?_, ?_⟩
    · rw [List.getElem?_append_left (by omega), hlast]
    · rw [List.drop_append_of_le_length (by omega)]
      exact hbegins.append more
  cases e with
  | startTag name selfClosing carries start stop =>
    refine ⟨htag h.1, fun hself => ?_⟩
    rw [List.take_append_of_le_length h.1.2.1]
    exact h.2 hself
  | endTag => exact htag h
  | openWrapper | closeWrapper => trivial

namespace Scan

/-- The tags listed are spelled as they say in the literal bytes, and stand behind each
other, before the tag being read. -/
structure Right (s : Scan) (html : List UInt8) : Prop where
  spells : s.lexer.Spells html
  tagStart_lt : s.lexer.state.stage ≠ .outside → s.lexer.tagStart < s.lexer.offset
  spelled : ∀ e ∈ s.events, e.Spelled html
  apart : (s.events.filterMap SourceEvent.span?).Pairwise fun x y => x.2 ≤ y.1
  behind : ∀ x ∈ s.events.filterMap SourceEvent.span?, x.2 ≤ s.lexer.offset ∧
    (s.lexer.state.stage ≠ .outside → x.2 ≤ s.lexer.tagStart)

namespace Right

variable {s : Scan} {html : List UInt8}

theorem initial : ({} : Scan).Right [] where
  spells := ⟨rfl, trivial⟩
  tagStart_lt := fun hs => absurd rfl hs
  spelled := fun _ he => absurd he List.not_mem_nil
  apart := .nil
  behind := fun _ hx => absurd hx List.not_mem_nil

/-- The lexer goes on, and no tag ends. -/
theorem goOn (h : s.Right html) {t : Scan} {more : List UInt8}
    (hspells : t.lexer.Spells (html ++ more)) (hevents : t.events = s.events)
    (hstage : t.lexer.state.stage ≠ .outside →
      (t.lexer.tagStart = s.lexer.tagStart ∧ s.lexer.state.stage ≠ .outside) ∨
        (t.lexer.tagStart = s.lexer.offset ∧ s.lexer.offset < t.lexer.offset)) :
    t.Right (html ++ more) := by
  have hle : s.lexer.offset ≤ t.lexer.offset := by
    rw [h.spells.offset_eq, hspells.offset_eq]
    simp
  refine ⟨hspells, fun hs => ?_, ?_, hevents ▸ h.apart, ?_⟩
  · rcases hstage hs with ⟨htag, hs'⟩ | ⟨htag, hlt⟩
    · rw [htag]
      exact Nat.lt_of_lt_of_le (h.tagStart_lt hs') hle
    · rw [htag]
      exact hlt
  · intro e he
    rw [hevents] at he
    exact (h.spelled e he).append more
  · intro x hx
    rw [hevents] at hx
    obtain ⟨hoffset, hstart⟩ := h.behind x hx
    refine ⟨Nat.le_trans hoffset hle, fun hs => ?_⟩
    rcases hstage hs with ⟨htag, hs'⟩ | ⟨htag, -⟩
    · rw [htag]
      exact hstart hs'
    · rw [htag]
      exact hoffset

/-- A byte ends the tag being read. -/
theorem endTag (h : s.Right html) {s' : Scan} {byte : UInt8} {e : SourceEvent}
    (hspells : s'.lexer.Spells (html ++ [byte])) (hevents : s'.events = s.events ++ [e])
    (hs : s.lexer.state.stage ≠ .outside) (hs' : s'.lexer.state.stage = .outside)
    (hspan : e.span? = some (s.lexer.tagStart, s.lexer.offset + 1))
    (hspelled : e.Spelled (html ++ [byte])) : s'.Right (html ++ [byte]) := by
  have hoffset : s'.lexer.offset = s.lexer.offset + 1 := by
    rw [h.spells.offset_eq, hspells.offset_eq, List.length_append, List.length_singleton]
  have hspans : s'.events.filterMap SourceEvent.span? =
      s.events.filterMap SourceEvent.span? ++ [(s.lexer.tagStart, s.lexer.offset + 1)] := by
    rw [hevents, List.filterMap_append, List.filterMap_cons_some hspan, List.filterMap_nil]
  refine ⟨hspells, fun hne => absurd hs' hne, ?_, ?_, ?_⟩
  · intro e' he'
    rw [hevents] at he'
    rcases List.mem_append.mp he' with he' | he'
    · exact (h.spelled e' he').append [byte]
    · rw [List.mem_singleton.mp he']
      exact hspelled
  · rw [hspans]
    refine List.pairwise_append.mpr ⟨h.apart, List.pairwise_singleton _ _, ?_⟩
    intro x hx y hy
    rw [List.mem_singleton.mp hy]
    exact (h.behind x hx).2 hs
  · intro x hx
    refine ⟨?_, fun hne => absurd hs' hne⟩
    rw [hspans] at hx
    rw [hoffset]
    rcases List.mem_append.mp hx with hx | hx
    · exact Nat.le_succ_of_le (h.behind x hx).1
    · exact Nat.le_of_eq (by rw [List.mem_singleton.mp hx])

theorem read (h : s.Right html) (byte : UInt8) : (s.read byte).Right (html ++ [byte]) := by
  obtain ⟨hspells, hspelled⟩ := h.spells.step byte
  have hreads := s.lexer.reads_step byte
  have ho := s.lexer.offset_step byte
  have hlen := h.spells.offset_eq
  unfold Scan.read
  generalize s.lexer.step byte = next at hspells hspelled hreads ho ⊢
  obtain ⟨l', tag⟩ := next
  have hlast : (html ++ [byte]).getLast? = some '>'.toUInt8 →
      (html ++ [byte])[s.lexer.offset + 1 - 1]? = some '>'.toUInt8 := by
    intro hbyte
    rw [Nat.add_sub_cancel, hlen]
    simpa using hbyte
  cases hreads with
  | outside _ hs => exact h.goOn (t := { s with lexer := l' }) hspells rfl fun hne => absurd hs hne
  | start _ hs ht =>
    refine h.goOn (t := { s with lexer := l' }) hspells rfl fun _ => .inr ⟨ht, ?_⟩
    rw [ho]
    exact Nat.lt_succ_self _
  | started hs hs' ht =>
    exact h.goOn (t := { s with lexer := l' }) hspells rfl fun _ => .inl ⟨ht, by simp [hs]⟩
  | opening hne hs ht =>
    exact h.goOn (t := { s with lexer := l' }) hspells rfl fun _ => .inl ⟨ht, hne⟩
  | openTag hs hs' =>
    have hne : s.lexer.state.stage ≠ .outside := by simp [hs]
    obtain ⟨hend, hbegins, hslash⟩ := hspelled _ rfl
    refine h.endTag hspells rfl hne hs' rfl ⟨⟨?_, ?_, hlast hend, hbegins⟩, ?_⟩
    · exact Nat.lt_succ_of_lt (h.tagStart_lt hne)
    · exact Nat.le_of_eq (by rw [hlen, List.length_append, List.length_singleton])
    · have hle : (html ++ [byte]).length ≤ s.lexer.offset + 1 :=
        Nat.le_of_eq (by rw [hlen, List.length_append, List.length_singleton])
      rw [List.take_of_length_le hle]
      exact hslash
  | closeTag hs hs' =>
    have hne : s.lexer.state.stage ≠ .outside := by simp [hs]
    obtain ⟨hend, hbegins⟩ := hspelled _ rfl
    refine h.endTag hspells rfl hne hs' rfl ⟨?_, ?_, hlast hend, hbegins⟩
    · exact Nat.lt_succ_of_lt (h.tagStart_lt hne)
    · exact Nat.le_of_eq (by rw [hlen, List.length_append, List.length_singleton])

theorem interrupt (h : s.Right html) : s.interrupt.Right html := by
  have hspells : s.interrupt.lexer.Spells (html ++ []) := by
    rw [List.append_nil]
    exact h.spells.interrupt
  rw [← List.append_nil html]
  refine h.goOn hspells rfl fun hne => .inl ⟨rfl, ?_⟩
  rcases s.lexer.state.stage_interrupted with hs | hs
  · exact absurd hs hne
  · exact hs ▸ hne

/-- A wrapper token is no tag. -/
theorem add (h : s.Right html) {e : SourceEvent} (hspan : e.span? = none) (he : e.Spelled html) :
    (s.add e).Right html := by
  have hspans : (s.add e).events.filterMap SourceEvent.span? =
      s.events.filterMap SourceEvent.span? := by
    simp [Scan.add, List.filterMap_append, hspan]
  refine ⟨h.spells, h.tagStart_lt, fun e' he' => ?_, hspans ▸ h.apart, hspans ▸ h.behind⟩
  rcases List.mem_append.mp he' with he' | he'
  · exact h.spelled e' he'
  · rw [List.mem_singleton.mp he']
    exact he

theorem step (h : s.Right html) (i : Item) : (s.step i).Right (html ++ i.byte?.toList) := by
  have hi := h.interrupt
  cases i with
  | byte byte => exact h.read byte
  | content =>
    rw [show html ++ Item.content.byte?.toList = html from List.append_nil html]
    exact hi
  | openWrapper =>
    rw [show html ++ Item.openWrapper.byte?.toList = html from List.append_nil html]
    exact hi.add (e := .openWrapper) rfl trivial
  | closeWrapper =>
    rw [show html ++ Item.closeWrapper.byte?.toList = html from List.append_nil html]
    exact hi.add (e := .closeWrapper) rfl trivial
  | plain kept =>
    rw [show html ++ (Item.plain kept).byte?.toList = html from List.append_nil html]
    exact ⟨hi.spells, hi.tagStart_lt, hi.spelled, hi.apart, hi.behind⟩

theorem foldl (h : s.Right html) (items : List Item) :
    (items.foldl Scan.step s).Right (html ++ items.filterMap Item.byte?) := by
  induction items generalizing s html with
  | nil => simpa using h
  | cons i items ih =>
    have hi := ih (h.step i)
    rw [List.append_assoc] at hi
    cases hb : i.byte? with
    | none => simpa [hb] using hi
    | some byte => simpa [hb] using hi

end Right

end Scan

end HtmlTemplate
