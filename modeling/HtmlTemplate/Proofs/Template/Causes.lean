import HtmlTemplate.Proofs.Template.Acceptance
import HtmlTemplate.Proofs.Template.Crossing
import HtmlTemplate.Proofs.Template.EndTags

/-!
# What an error says of the source

The checks of a pass look at declarations that are partly used up, at a stack of wrappers and
at the state of a lexer, and the first fault hides all others. The author of a template only
sees the error. This module says that it is about the source and its declarations as a whole.

Results:
1. `TemplateError.Holds`: what an error says, of the tokens, declarations and tags alone.
2. `holds_of_refuses`: it is so if a piece is refused. `holds_of_finish`: or the end.
3. `errors_hold`: so it is for every source that is refused.
-/

namespace HtmlTemplate

open Brackets

variable {ω δ : Type}

/-! ## 1. Statements -/

/-- What an error says of a source and its declarations, of which a wrapper or a component is
to be made. -/
def TemplateError.Holds (source : String) (declarations : List (Declaration ω δ))
    (isWrapper : Bool) : TemplateError → Prop
  | .unbalancedWrapper => ¬Brackets.Balanced Token.bracket? (Token.ofSource source)
  | .duplicateContent => 2 ≤ contentCount (Token.ofSource source)
  | .unexpectedContent => isWrapper = false ∧ contentCount (Token.ofSource source) = 1
  | .missingContent => isWrapper = true ∧ contentCount (Token.ofSource source) = 0
  | .nameOrder expected found => expected ≠ found ∧ ∃ k,
      (declarations.map Declaration.name).take k = (tokenNames (Token.ofSource source)).take k ∧
        (declarations.map Declaration.name)[k]? = some expected ∧
          (tokenNames (Token.ofSource source))[k]? = some found
  | .duplicateName name => 2 ≤ (declarations.map Declaration.name).count name ∨
      2 ≤ (tokenNames (Token.ofSource source)).count name
  | .markerCount declared found => declared ≠ found ∧ declared = declarations.length ∧
      found = (Token.ofSource source).countP fun t => t.kind.isNamed
  -- The callback does not fit the kind of marker that the token makes where it stands.
  | .callbackKind name kind callback => ¬kind.Takes callback ∧
      (∃ d ∈ declarations, d.name = name ∧ d.callback.map Callback.kind = some callback) ∧
        ∃ (t : Token) (state : TagState), t.StandsIn source declarations state ∧
          t.kind.name? = some name ∧ t.kind.markerKind? state = some kind
  | .tokenInsideTag start => ∃ (t : Token) (state : TagState),
      t.StandsIn source declarations state ∧ t.start = start ∧
        (∀ name, t.kind ≠ .plain name) ∧ state.insideTag = true
  | .markerInsideEndTag name => ∃ (t : Token) (state : TagState),
      t.StandsIn source declarations state ∧ t.kind = .plain name ∧ state.isInEndTag = true
  | .unclosedElement name => ∃ tagName : TagName, tagName.text = name ∧
      (Scan.ofSource source declarations).Lost tagName
  | .wrapperCrossesElement name => ∃ tagName : TagName, tagName.text = name ∧
      Crossed (SourceEvent.ofSource source declarations) tagName
  | .tooLarge => ¬LiteralFits source declarations

theorem length_tokenNames (tokens : List Token) :
    (tokenNames tokens).length = tokens.countP fun t => t.kind.isNamed :=
  List.length_filterMap_eq_countP

theorem count_of_firstRepeated? {seen names : List String} {name : String}
    (h : firstRepeated? seen names = some name) :
    0 < names.count name ∧ (name ∈ seen ∨ 2 ≤ names.count name) := by
  induction names generalizing seen with
  | nil => cases h
  | cons other names ih =>
    unfold firstRepeated? at h
    split at h
    · next hseen =>
      cases h
      exact ⟨by simp, .inl hseen⟩
    · obtain ⟨hpos, hcases⟩ := ih h
      by_cases heq : other = name
      · subst heq
        exact ⟨by simp, .inr (by simpa using hpos)⟩
      · rw [List.count_cons_of_ne heq]
        exact ⟨hpos, hcases.imp_left (List.mem_of_ne_of_mem (Ne.symm heq))⟩

/-! ## 2. Passes that fail -/

namespace Assembly

variable {source : String} {declarations : List (Declaration ω δ)} {a : Assembly ω δ}
  {isWrapper : Bool}

theorem counts_of_foldlM {pieces : List Piece} {a b : Assembly ω δ}
    (h : pieces.foldlM addPiece a = .ok b) : b.counts = a.counts := by
  refine invariant_of_foldlM (P := fun b => b.counts = a.counts) (fun x y he hx => ?_) h rfl
  cases he with
  | placed hp => cases hp <;> exact hx
  | bytes | declaration | content | unfold | close => exact hx

/-- What is known of the assembly behind the first pieces of a source. -/
structure Stops (source : String) (declarations : List (Declaration ω δ)) (front : List Piece)
    (a : Assembly ω δ) : Prop where
  nodup : (declarations.map Declaration.name).Nodup
  pass : front.foldlM addPiece (atStart source declarations) = .ok a
  met : Met declarations (front.filterMap Piece.token?) a
  depth_eq : rise Token.bracket? (front.filterMap Piece.token?) = a.openWrappers.length
  counts_eq : a.counts = (atStart source declarations).counts

theorem stops_of_foldlM {front : List Piece}
    (hnodup : (declarations.map Declaration.name).Nodup)
    (h : front.foldlM addPiece (atStart source declarations) = .ok a) :
    Stops source declarations front a := by
  have hmet := (Met.initial _ declarations).foldlM hnodup h
  rw [List.nil_append] at hmet
  obtain ⟨opened, htraces⟩ := traces_of_foldlM hnodup h
  refine ⟨hnodup, h, hmet, ?_, counts_of_foldlM h⟩
  rw [htraces.unclosed.rise_eq, htraces.stack.length_eq]

namespace Stops

variable {front back : List Piece}

/-- As many declarations are used up as named tokens have been met. -/
theorem length_declarations (h : Stops source declarations front a) :
    (tokenNames (front.filterMap Piece.token?)).length + a.declarations.length =
      declarations.length := by
  simpa using congrArg List.length h.met.names_eq

theorem holds_nameOrder (h : Stops source declarations front a) {t : Token} {name : String}
    {d : Declaration ω δ} {rest : List (Declaration ω δ)}
    (hpieces : pieces source = front ++ .token t :: back) (hname : t.kind.name? = some name)
    (hd : a.declarations = d :: rest) (hne : d.name ≠ name) :
    (TemplateError.nameOrder d.name name).Holds source declarations isWrapper := by
  have hnames := h.met.names_eq
  rw [hd, List.map_cons] at hnames
  refine ⟨hne, (tokenNames (front.filterMap Piece.token?)).length, ?_⟩
  rw [← hnames, ofSource_of_split hpieces, tokenNames_append, tokenNames_cons, hname]
  simp

/-- A piece is refused only for what the error says. -/
theorem holds_of_refuses (h : Stops source declarations front a) {p : Piece} {e : TemplateError}
    (hpieces : pieces source = front ++ p :: back) (hr : a.Refuses p e)
    (hcrossed : ∀ name, e = .wrapperCrossesElement name → e.Holds source declarations isWrapper) :
    e.Holds source declarations isWrapper := by
  cases hr with
  | crossedText | crossedStatic | crossedEnd => exact hcrossed _ rfl
  | insideTag hk hcomes hin => exact ⟨_, _, hcomes.standsIn hpieces h.pass, rfl, hk, hin⟩
  | insideEndTag hk hcomes hin => exact ⟨_, _, hcomes.standsIn hpieces h.pass, hk, hin⟩
  | callbackKind hname hd hcallback hcomes hkind hnot =>
    exact ⟨hnot, ⟨_, h.met.unused _ (hd ▸ List.mem_cons_self), rfl, by rw [hcallback]; rfl⟩,
      _, _, hcomes.standsIn hpieces h.pass, hname, hkind⟩
  | duplicateContent hk hsome =>
    show 2 ≤ contentCount (Token.ofSource source)
    rw [ofSource_of_split hpieces, contentCount_append, contentCount_cons, h.met.content_eq,
      if_pos hsome, if_pos hk]
    omega
  | @unbalanced t hk hnil =>
    intro hbalanced
    have hnonneg := hbalanced.neverBelow (front.filterMap Piece.token? ++ [t])
      ⟨back.filterMap Piece.token?, by simp [ofSource_of_split hpieces]⟩
    rw [rise_append, h.depth_eq, hnil, rise_cons, rise_nil, Token.bracket?, hk] at hnonneg
    exact absurd hnonneg (by decide)
  | @duplicateName t name hname hseen =>
    refine .inr ?_
    have hpos := List.count_pos_iff.mpr (h.met.seen _ hseen)
    rw [ofSource_of_split hpieces, tokenNames_append, tokenNames_cons, hname, List.count_append]
    simp only [Option.toList_some, List.singleton_append, List.count_cons_self]
    omega
  | @markerCount t name hname hnil =>
    rw [h.counts_eq]
    have hlength := h.length_declarations
    refine ⟨Nat.ne_of_lt ?_, rfl, rfl⟩
    show declarations.length < (Token.ofSource source).countP fun t => t.kind.isNamed
    rw [← length_tokenNames, ofSource_of_split hpieces, tokenNames_append, tokenNames_cons, hname,
      ← hlength, hnil]
    simp
  | nameOrder hname hd hne => exact h.holds_nameOrder hpieces hname hd hne
  | fullText hfull => exact not_literalFits_of_room_lt h.nodup hpieces h.pass hfull
  | fullStatic hname hd hfull =>
    refine not_literalFits_of_room_lt h.nodup hpieces h.pass ?_
    have hdeclared := h.met.unused _ (hd ▸ List.mem_cons_self)
    rwa [Piece.literal, Token.replacement, declaration?_eq_some h.nodup hdeclared hname]

/-- Behind the last piece the source is refused only for what the error says. -/
theorem holds_of_finish (h : Stops source declarations (pieces source) a) {e : TemplateError}
    (hfinish : a.finish = .error e)
    (hlost : ∀ name, e = .unclosedElement name → e.Holds source declarations isWrapper) :
    e.Holds source declarations isWrapper := by
  rcases finish_eq_error hfinish with ⟨hopen, rfl⟩ | ⟨-, name, -, rfl⟩ | ⟨hleft, rfl⟩
  · intro hbalanced
    have hrise := h.depth_eq.symm.trans hbalanced.rise_eq
    exact hopen (List.length_eq_zero_iff.mp (Int.ofNat_eq_zero.mp hrise))
  · exact hlost name rfl
  · rw [h.counts_eq]
    have hlength := h.length_declarations
    have hpos := List.length_pos_iff.mpr hleft
    refine ⟨Nat.ne_of_gt ?_, rfl, rfl⟩
    show (Token.ofSource source).countP (fun t => t.kind.isNamed) < declarations.length
    rw [← length_tokenNames, Token.ofSource, ← hlength]
    exact Nat.lt_add_of_pos_right hpos

end Stops

end Assembly

/-! ## 3. All sources -/

section

variable {source : String} {declarations : List (Declaration ω δ)} {isWrapper : Bool}

theorem holds_of_compile? {e : TemplateError} (h : compile? source declarations = .error e) :
    e.Holds source declarations isWrapper := by
  rcases compile?_eq_error h with
    ⟨name, hname, rfl⟩ | ⟨hfirst, ⟨front, p, back, a, hp, ha, hr⟩ | hf⟩
  · exact .inl ((count_of_firstRepeated? hname).2.resolve_left List.not_mem_nil)
  · have hnodup := (firstRepeated?_eq_none hfirst).1
    refine (Assembly.stops_of_foldlM hnodup ha).holds_of_refuses hp hr ?_
    rintro name rfl
    exact crossed_of_compile? h
  · obtain ⟨a, ha, hfinish⟩ := hf
    have hnodup := (firstRepeated?_eq_none hfirst).1
    refine (Assembly.stops_of_foldlM hnodup ha).holds_of_finish hfinish ?_
    rintro name rfl
    exact (lost_of_compile? h).2

/-- The number of content tokens, if nothing else is refused. -/
theorem contentCount_of_compile? {a : Assembly ω δ} {t : Template ω δ}
    (h : compile? source declarations = .ok (a, t)) :
    contentCount (Token.ofSource source) = if a.content.isSome then 1 else 0 :=
  (Assembly.accepted_of_compile? h).content_eq

end

/-- Whatever the source and its declarations, an error says what is the case. -/
theorem errors_hold (source : String) (declarations : List (Declaration ω δ)) :
    (∀ e, Component.compile source declarations = .error e →
      e.Holds source declarations false) ∧
    ∀ e, Wrapper.compile source declarations = .error e → e.Holds source declarations true := by
  constructor
  · intro e h
    rcases Component.compile_eq_error h with h | ⟨a, t, ht, hcontent, rfl⟩
    · exact holds_of_compile? h
    · have hcount := contentCount_of_compile? ht
      rw [hcontent] at hcount
      exact ⟨rfl, hcount⟩
  · intro e h
    rcases Wrapper.compile_eq_error h with h | ⟨a, t, ht, hcontent, rfl⟩
    · exact holds_of_compile? h
    · have hcount := contentCount_of_compile? ht
      rw [hcontent] at hcount
      exact ⟨rfl, hcount⟩

/-- The source `${b}<i ${a}>`. -/
def misnamedSource : String := "$\x7bb\x7d<i $\x7ba\x7d>"

/-- Its declarations, in another order. -/
def misnamed : List (Declaration Unit Unit) :=
  [.attributes "a" fun _ => pure (), .plain "b" fun _ => pure ()]

/-- The source `<i ${{a}>}}</i>`. -/
def taggedSource : String := "<i $\x7b\x7ba\x7d>\x7d\x7d</i>"

/-- Its declaration. -/
def tagged : List (Declaration Unit Unit) := [.wrapper "a" fun _ => pure ()]

/-- Other faults are hidden: an element that is not closed, and no content marker. -/
theorem errors_hold_of_misnamed :
    Component.compile misnamedSource misnamed = .error (.nameOrder "a" "b") ∧
      (TemplateError.nameOrder "a" "b").Holds misnamedSource misnamed false ∧
        Wrapper.compile taggedSource tagged = .error (.tokenInsideTag 3) ∧
          (TemplateError.tokenInsideTag 3).Holds taggedSource tagged true := by
  have hmisnamed :
      failsWith (Component.compile misnamedSource misnamed) (.nameOrder "a" "b") = true := by
    decide +kernel
  have htagged : failsWith (Wrapper.compile taggedSource tagged) (.tokenInsideTag 3) = true := by
    decide +kernel
  have hcomponent := eq_error_of_failsWith hmisnamed
  have hwrapper := eq_error_of_failsWith htagged
  exact ⟨hcomponent, (errors_hold _ _).1 _ hcomponent, hwrapper, (errors_hold _ _).2 _ hwrapper⟩

end HtmlTemplate
