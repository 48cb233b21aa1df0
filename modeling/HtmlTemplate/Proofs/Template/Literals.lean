import HtmlTemplate.Proofs.Template.Origins
import HtmlTemplate.Proofs.Template.Sources
import HtmlTemplate.Proofs.Template.Tags

/-!
# The literal text of a source

The literal bytes of a template are the text of its source, in which every token is
replaced: a named one by the static text of its declaration, the others by nothing. Markers
and the content point stand right behind the replacement of their token. `literalText` says
this of the source and the declarations alone, in byte offsets of the source.

Results:
1. `literalFrom_eq`, `literalText_eq`: the text with its tokens replaced is what the pieces
   spell, one after the other.
2. `Assembly.Adds`: what a token adds to an assembly (`Adds.of_addToken`).
3. `Span.Tile`: the spans of the markers follow each other without gaps (`Tiled.edit`).
4. `length_literal_le_room`: there is room for each piece, if the literal text fits; and it
   does if the source compiles (`literalFits_of_compile?`).
5. `literals_of_compile`: the literal bytes, markers, spans and content point of a compiled
   template are those of its source.
-/

namespace HtmlTemplate

variable {ω δ : Type}

/-! ## 1. The text of a source -/

/-- The declaration of the name in the token. -/
def Token.declaration? (declarations : List (Declaration ω δ)) (t : Token) :
    Option (Declaration ω δ) :=
  t.kind.name?.bind fun name => declarations.find? fun d => d.name = name

/-- What stands for the token in the literal text: the static text of its declaration. -/
def Token.replacement (declarations : List (Declaration ω δ)) (t : Token) : List UInt8 :=
  match t.declaration? declarations with
  | some d => d.bytes
  | none => []

/-- The bytes from `offset` on, up to the end of the last token, with all tokens replaced. -/
def literalFrom (bytes : List UInt8) (declarations : List (Declaration ω δ)) :
    Nat → List Token → List UInt8
  | _, [] => []
  | offset, t :: tokens =>
    (bytes.take t.start).drop offset ++ t.replacement declarations ++
      literalFrom bytes declarations t.stop tokens

/-- Where the last of the tokens ends, of which the first stands behind `offset`. -/
def lastStop (offset : Nat) (tokens : List Token) : Nat :=
  (tokens.getLast?.map Token.stop).getD offset

/-- The literal text up to and including the first `count` tokens of a source. -/
def literalThrough (source : String) (declarations : List (Declaration ω δ)) (count : Nat) :
    List UInt8 :=
  literalFrom (sourceBytes source) declarations 0 ((Token.ofSource source).take count)

/-- The literal text of a source. -/
def literalText (source : String) (declarations : List (Declaration ω δ)) : List UInt8 :=
  literalFrom (sourceBytes source) declarations 0 (Token.ofSource source) ++
    (sourceBytes source).drop (lastStop 0 (Token.ofSource source))

/-- A template can have as many literal bytes as the literal text of the source has. -/
def LiteralFits (source : String) (declarations : List (Declaration ω δ)) : Prop :=
  (literalText source declarations).length ≤ literalBound

instance (source : String) (declarations : List (Declaration ω δ)) :
    Decidable (LiteralFits source declarations) :=
  inferInstanceAs (Decidable (_ ≤ _))

/-- The literal text of a piece. -/
def Piece.literal (declarations : List (Declaration ω δ)) : Piece → List UInt8
  | .text c => String.utf8EncodeChar c
  | .token t => t.replacement declarations

section

variable {declarations : List (Declaration ω δ)} {bytes : List UInt8}

/-- Text goes on with the character at `offset`. -/
theorem take_drop_append (start offset size : Nat) (hstart : start ≤ offset)
    (hoffset : offset ≤ bytes.length) :
    (bytes.take offset).drop start ++ (bytes.drop offset).take size =
      (bytes.take (offset + size)).drop start := by
  rw [List.take_add, List.drop_append_of_le_length]
  rw [List.length_take, Nat.min_eq_left hoffset]
  exact hstart

/-- The pieces up to a token spell what the replacement of their tokens leaves. -/
theorem literalFrom_eq {t : Token} {front back : List Piece} {start offset : Nat}
    (h : Covers bytes offset (front ++ .token t :: back)) (hstart : start ≤ offset) :
    (bytes.take offset).drop start ++
        (front ++ [Piece.token t]).flatMap (Piece.literal declarations) =
      literalFrom bytes declarations start ((front ++ [Piece.token t]).filterMap Piece.token?) := by
  induction front generalizing start offset with
  | nil =>
    cases h
    simp [Piece.literal, Piece.token?, literalFrom]
  | cons p front ih =>
    have hle := h.offset_le
    cases h with
    | text hc htail =>
      rw [List.cons_append, List.flatMap_cons, Piece.literal, ← List.append_assoc, ← hc,
        take_drop_append _ _ _ hstart hle]
      exact ih htail (Nat.le_trans hstart (Nat.le_add_right _ _))
    | @token t' _ _ htail =>
      have hrest := ih htail (Nat.le_refl _)
      rw [List.drop_eq_nil_of_le (List.length_take_le _ _), List.nil_append] at hrest
      rw [List.cons_append, List.flatMap_cons, hrest]
      simp [Piece.literal, Piece.token?, literalFrom]

/-- All pieces spell the bytes, but for the replacement of the tokens. -/
theorem literalFrom_append_drop {pieces : List Piece} {start offset : Nat}
    (h : Covers bytes offset pieces) (hstart : start ≤ offset) :
    (bytes.take offset).drop start ++ pieces.flatMap (Piece.literal declarations) =
      literalFrom bytes declarations start (pieces.filterMap Piece.token?) ++
        bytes.drop (lastStop start (pieces.filterMap Piece.token?)) := by
  induction pieces generalizing start offset with
  | nil =>
    cases h
    simp [literalFrom, lastStop]
  | cons p pieces ih =>
    have hle := h.offset_le
    cases h with
    | text hc htail =>
      rw [List.flatMap_cons, Piece.literal, ← List.append_assoc, ← hc,
        take_drop_append _ _ _ hstart hle]
      exact ih htail (Nat.le_trans hstart (Nat.le_add_right _ _))
    | @token t _ _ htail =>
      have hrest := ih htail (Nat.le_refl _)
      rw [List.drop_eq_nil_of_le (List.length_take_le _ _), List.nil_append] at hrest
      have hlast : ∀ tokens, lastStop start (t :: tokens) = lastStop t.stop tokens := by
        intro tokens
        cases tokens with
        | nil => rfl
        | cons t' tokens => simp [lastStop, List.getLast?_cons]
      rw [List.flatMap_cons, hrest]
      simp [Piece.literal, Piece.token?, literalFrom, hlast]

/-- The literal text through a token is what the pieces up to it spell. -/
theorem literalThrough_eq {source : String} {t : Token} {front back : List Piece}
    (h : pieces source = front ++ .token t :: back) :
    literalThrough source declarations ((front.filterMap Piece.token?).length + 1) =
      (front ++ [Piece.token t]).flatMap (Piece.literal declarations) := by
  have hcovers := covers_pieces source
  rw [h] at hcovers
  have htokens : (Token.ofSource source).take ((front.filterMap Piece.token?).length + 1) =
      (front ++ [Piece.token t]).filterMap Piece.token? := by
    rw [Token.ofSource, h, List.append_cons, List.filterMap_append]
    exact List.take_left' (by simp [Piece.token?])
  rw [literalThrough, htokens, ← literalFrom_eq hcovers (Nat.le_refl 0)]
  simp

theorem literalText_eq (source : String) (declarations : List (Declaration ω δ)) :
    literalText source declarations = (pieces source).flatMap (Piece.literal declarations) := by
  rw [literalText, Token.ofSource, ← literalFrom_append_drop (covers_pieces source) (Nat.le_refl 0)]
  simp

end

/-! ## 2. What a token adds -/

/-- A declaration is the one of its name. -/
theorem declaration?_eq_some {declarations : List (Declaration ω δ)} {d : Declaration ω δ}
    {t : Token} (hnodup : (declarations.map Declaration.name).Nodup) (hd : d ∈ declarations)
    (hname : t.kind.name? = some d.name) : t.declaration? declarations = some d := by
  rw [Token.declaration?, hname, Option.bind_some]
  cases hfind : declarations.find? (fun d' => d'.name = d.name) with
  | none => simpa using List.find?_eq_none.mp hfind d hd
  | some d' =>
    have hname' : d'.name = d.name := by simpa using List.find?_some hfind
    rw [List.inj_on_of_nodup_map hnodup (List.mem_of_find?_eq_some hfind) hd hname']

theorem declaration?_eq_none {declarations : List (Declaration ω δ)} {t : Token}
    (hname : t.kind.name? = none) : t.declaration? declarations = none := by
  rw [Token.declaration?, hname, Option.bind_none]

theorem Marker.callback?_closedBy (m : Marker ω δ) (closing : Nat) :
    (m.closedBy closing).action.callback? = m.action.callback? := by
  unfold Marker.closedBy
  split
  · next h => simp [h, Action.callback?]
  · rfl

namespace Assembly

variable {declarations : List (Declaration ω δ)} {a b : Assembly ω δ} {t : Token}

/-- What a token adds to an assembly: its replacement, and at most one marker, which stands
behind the replacement and runs the callback of the declaration. -/
structure Adds (declarations : List (Declaration ω δ)) (a b : Assembly ω δ) (t : Token) :
    Prop where
  html_eq : b.html = a.html ++ (t.replacement declarations).toByteArray
  size_le : b.markers.size ≤ a.markers.size + 1
  position_eq : ∀ m, b.markers[a.markers.size]? = some m → m.position = b.html.size
  callback?_eq : ∀ m, b.markers[a.markers.size]? = some m →
    m.action.callback? = (t.declaration? declarations).bind Declaration.callback

namespace Adds

/-- The token leaves no marker. -/
theorem of_eq (hh : b.html = a.html ++ (t.replacement declarations).toByteArray)
    (hm : b.markers = a.markers) : Adds declarations a b t := by
  have hnone : ∀ m : Marker ω δ, b.markers[a.markers.size]? ≠ some m := by
    intro m
    rw [hm]
    simp
  exact ⟨hh, hm ▸ Nat.le_succ _, fun m h => absurd h (hnone m), fun m h => absurd h (hnone m)⟩

/-- The token leaves the marker `m`. -/
theorem of_last {m : Marker ω δ} (hh : b.html = a.html ++ (t.replacement declarations).toByteArray)
    (hlast : b.markers[a.markers.size]? = some m) (hsize : b.markers.size = a.markers.size + 1)
    (hp : m.position = b.html.size)
    (hc : m.action.callback? = (t.declaration? declarations).bind Declaration.callback) :
    Adds declarations a b t := by
  refine ⟨hh, Nat.le_of_eq hsize, ?_, ?_⟩
  · intro n hn
    rw [hlast] at hn
    cases hn
    exact hp
  · intro n hn
    rw [hlast] at hn
    cases hn
    exact hc

theorem of_placed {c : Assembly ω δ} {d : Declaration ω δ} {isWrapper : Bool}
    (hp : Placed a d isWrapper b) (hm : a.markers = c.markers)
    (hh : a.html = c.html ++ (t.replacement declarations).toByteArray)
    (hd : t.declaration? declarations = some d) : Adds declarations c b t := by
  have hlast : ∀ m : Marker ω δ, (a.markers.push m)[c.markers.size]? = some m := by
    intro m
    rw [← hm, Array.getElem?_push_size]
  have hsize : ∀ m : Marker ω δ, (a.markers.push m).size = c.markers.size + 1 := by
    intro m
    rw [← hm, Array.size_push]
  cases hp with
  | plain run hc | attributes run hc | wrapper run hc =>
    exact of_last hh (hlast _) (hsize _) rfl (by rw [hd, Option.bind_some, hc]; rfl)
  | folded hc | foldedWrapper hc => exact of_eq hh hm

theorem of_addNamed (hnodup : (declarations.map Declaration.name).Nodup)
    (hunused : ∀ d ∈ a.declarations, d ∈ declarations) {name : String} {isWrapper : Bool}
    {start : Nat} (hname : t.kind.name? = some name)
    (hb : a.addNamed name isWrapper start = .ok b) : Adds declarations a b t := by
  obtain ⟨d, rest, r, hds, rfl, -, -, hp⟩ := addNamed_eq_ok hb
  have hd : t.declaration? declarations = some d :=
    declaration?_eq_some hnodup (hunused d (hds ▸ List.mem_cons_self)) hname
  refine of_placed hp rfl ?_ hd
  rw [Token.replacement, hd]
  simp only [Declaration.bytes, toByteArray_toList]

theorem of_addWrapperEnd (hwrappers : ∀ i, some i ∈ a.openWrappers → i < a.markers.size)
    (hk : t.kind = .wrapperEnd) (hb : a.addWrapperEnd t.start = .ok b) :
    Adds declarations a b t := by
  have hnone : t.declaration? declarations = none := declaration?_eq_none (by rw [hk]; rfl)
  have hhtml : a.html = a.html ++ (t.replacement declarations).toByteArray := by
    simp [Token.replacement, hnone]
  obtain ⟨wrapper, rest, ho, -, -, hb⟩ := addWrapperEnd_eq_ok hb
  cases wrapper with
  | none =>
    subst hb
    exact of_eq hhtml rfl
  | some i =>
    subst hb
    have hi : i < a.markers.size := hwrappers i (ho ▸ List.mem_cons_self)
    obtain ⟨m, hm, hp, hmarkers⟩ :=
      markers_closeWrapper { a with reader := a.reader.interrupt, openWrappers := rest } i
    refine of_last hhtml ?_ ?_ hp (by rw [hm, hnone]; rfl)
    · rw [hmarkers, Array.getElem?_modify, if_neg (Nat.ne_of_lt hi)]
      exact Array.getElem?_push_size
    · rw [hmarkers, Array.size_modify, Array.size_push]

theorem of_addToken (hnodup : (declarations.map Declaration.name).Nodup)
    (hunused : ∀ d ∈ a.declarations, d ∈ declarations)
    (hwrappers : ∀ i, some i ∈ a.openWrappers → i < a.markers.size) (hb : a.addToken t = .ok b) :
    Adds declarations a b t := by
  unfold Assembly.addToken at hb
  split at hb
  · next hk =>
    obtain ⟨-, -, rfl⟩ := addContent_eq_ok hb
    refine of_eq ?_ rfl
    simp [Token.replacement, declaration?_eq_none (show t.kind.name? = none by rw [hk]; rfl)]
  · next hk => exact of_addWrapperEnd hwrappers hk hb
  · next name hk => exact of_addNamed hnodup hunused (by rw [hk]; rfl) hb
  · next name hk => exact of_addNamed hnodup hunused (by rw [hk]; rfl) hb

end Adds

/-- A content token fixes the content point, which other pieces leave as it is. -/
theorem content_of_addPiece {p : Piece} (hb : a.addPiece p = .ok b) :
    (∃ t, p = .token t ∧ t.kind = .content ∧ a.content = none ∧ b.content = some a.place) ∨
      (∀ t, p = .token t → t.kind ≠ .content) ∧ b.content = a.content := by
  have hnamed : ∀ {name isWrapper start}, a.addNamed name isWrapper start = .ok b →
      b.content = a.content := by
    intro name isWrapper start h
    obtain ⟨d, rest, r, -, -, -, -, hp⟩ := addNamed_eq_ok h
    cases hp <;> rfl
  cases p with
  | text c =>
    obtain ⟨r, -, rfl⟩ := addBytes_eq_ok hb
    exact .inr ⟨nofun, rfl⟩
  | token t =>
    obtain ⟨kind, start, stop⟩ := t
    cases kind with
    | content =>
      obtain ⟨-, hc, rfl⟩ := addContent_eq_ok hb
      exact .inl ⟨_, rfl, rfl, hc, rfl⟩
    | wrapperEnd =>
      obtain ⟨wrapper, rest, -, -, -, rfl⟩ := addWrapperEnd_eq_ok hb
      refine .inr ⟨?_, by cases wrapper <;> rfl⟩
      rintro _ ⟨⟩
      nofun
    | wrapperStart name | plain name =>
      refine .inr ⟨?_, hnamed hb⟩
      rintro _ ⟨⟩
      nofun

/-- The content point has been fixed at a content token. -/
theorem exists_content_of_foldlM {pieces : List Piece} {p : Place}
    (hb : pieces.foldlM addPiece a = .ok b) (ha : a.content = none) (hp : b.content = some p) :
    ∃ front t back, pieces = front ++ .token t :: back ∧ t.kind = .content := by
  induction pieces generalizing a with
  | nil =>
    cases hb
    rw [ha] at hp
    cases hp
  | cons piece pieces ih =>
    obtain ⟨a', hpiece, hrest⟩ := exists_ok_of_bind hb
    rcases content_of_addPiece hpiece with ⟨t, rfl, hk, -, -⟩ | ⟨-, hsame⟩
    · exact ⟨[], t, pieces, rfl, hk⟩
    · obtain ⟨front, t, back, rfl, hk⟩ := ih hrest (hsame.trans ha)
      exact ⟨piece :: front, t, back, rfl, hk⟩

/-- An open wrapper has left its marker. -/
theorem Traces.lt_size {tokens : List Token} {opened places : List Nat}
    (h : Traces declarations tokens a opened places) (i : Nat) (hi : some i ∈ a.openWrappers) :
    i < a.markers.size := by
  obtain ⟨j, hj, heq⟩ := List.getElem_of_mem hi
  have hopens := h.stack.get (h.stack.length_eq ▸ hj) hj
  rw [List.get_eq_getElem, List.get_eq_getElem, heq] at hopens
  rw [← h.length_eq]
  exact (List.getElem?_eq_some_iff.mp hopens.1).1

end Assembly

/-! ## 3. Places of markers -/

open Classical in
/-- The indices of the tokens that leave markers, in order. -/
noncomputable def markerPlaces (declarations : List (Declaration ω δ)) (tokens : List Token) :
    List Nat :=
  (List.range tokens.length).filter fun k => LeavesMarker declarations tokens k

section

variable {declarations : List (Declaration ω δ)} {tokens : List Token}

theorem mem_markerPlaces {k : Nat} :
    k ∈ markerPlaces declarations tokens ↔ LeavesMarker declarations tokens k := by
  classical
  rw [markerPlaces, List.mem_filter, List.mem_range, decide_eq_true_eq]
  exact and_iff_right_of_imp LeavesMarker.lt_length

theorem pairwise_markerPlaces (declarations : List (Declaration ω δ)) (tokens : List Token) :
    (markerPlaces declarations tokens).Pairwise (· < ·) :=
  List.pairwise_lt_range.filter _

/-- There is one way to list the places in order. -/
theorem eq_markerPlaces {places : List Nat} (hincreasing : places.Pairwise (· < ·))
    (hmem : ∀ k, k ∈ places ↔ LeavesMarker declarations tokens k) :
    places = markerPlaces declarations tokens := by
  have hplaces := pairwise_markerPlaces declarations tokens
  have hperm : places.Perm (markerPlaces declarations tokens) :=
    (List.perm_ext_iff_of_nodup (hincreasing.imp Nat.ne_of_lt) (hplaces.imp Nat.ne_of_lt)).mpr
      fun k => (hmem k).trans mem_markerPlaces.symm
  exact hperm.eq_of_pairwise (fun _ _ _ _ hlt hgt => absurd hgt (Nat.lt_asymm hlt)) hincreasing
    hplaces

open Classical in
/-- The tokens behind do not matter for the places among the first ones. -/
theorem filter_leavesMarker_append (tokens' : List Token) :
    ((List.range tokens.length).filter fun k => LeavesMarker declarations (tokens ++ tokens') k) =
      markerPlaces declarations tokens :=
  List.filter_congr fun _ hk =>
    decide_eq_decide.mpr (leavesMarker_append tokens' (List.mem_range.mp hk))

/-- The places among the first tokens are the first places. -/
theorem markerPlaces_prefix (declarations : List (Declaration ω δ)) (tokens tokens' : List Token) :
    markerPlaces declarations tokens <+: markerPlaces declarations (tokens ++ tokens') := by
  rw [← filter_leavesMarker_append tokens', markerPlaces, List.length_append, List.range_add,
    List.filter_append]
  exact List.prefix_append _ _

/-- A token at the end that leaves a marker. -/
theorem markerPlaces_snoc {t : Token}
    (h : LeavesMarker declarations (tokens ++ [t]) tokens.length) :
    markerPlaces declarations (tokens ++ [t]) =
      markerPlaces declarations tokens ++ [tokens.length] := by
  rw [markerPlaces, List.length_append, List.length_singleton, List.range_succ,
    List.filter_append, filter_leavesMarker_append, List.filter_cons_of_pos (by simpa using h),
    List.filter_nil]

end

/-- The marker is what the token with the index `k` has left. It stands right behind the
literal text of the token. -/
structure LeftBy (source : String) (declarations : List (Declaration ω δ)) (k : Nat)
    (m : Marker ω δ) : Prop where
  token : ∃ t, (Token.ofSource source)[k]? = some t ∧ m.FitsToken t ∧
    m.action.callback? = (t.declaration? declarations).bind Declaration.callback
  position_eq : m.position = (literalThrough source declarations (k + 1)).length

/-! ## 4. Spans -/

/-- The spans follow each other without gaps, from `start` to `stop`. -/
def Span.Tile : List Span → Nat → Nat → Prop
  | [], start, stop => start = stop
  | s :: spans, start, stop => s.start = start ∧ s.start ≤ s.stop ∧ Span.Tile spans s.stop stop

/-- The spans of the markers, in order. -/
def spans (markers : Array (Marker ω δ)) : List Span := markers.toList.map Marker.span

theorem Span.Tile.append {l : List Span} {start stop : Nat} (h : Tile l start stop) {s : Span}
    (hstart : s.start = stop) (hle : s.start ≤ s.stop) : Tile (l ++ [s]) start s.stop := by
  induction l generalizing start with
  | nil => exact ⟨hstart.trans (Eq.symm h), hle, rfl⟩
  | cons s' l ih => exact ⟨h.1, h.2.1, ih h.2.2⟩

theorem Span.Tile.le {l : List Span} {start stop : Nat} (h : Tile l start stop) :
    start ≤ stop := by
  induction l generalizing start with
  | nil => exact Nat.le_of_eq h
  | cons s l ih => exact h.1 ▸ Nat.le_trans h.2.1 (ih h.2.2)

theorem Span.Tile.stop_eq {l : List Span} {start stop : Nat} (h : Tile l start stop) :
    stop = (l.getLast?.map Span.stop).getD start := by
  induction l generalizing start with
  | nil => exact (Eq.symm h)
  | cons s l ih =>
    rw [ih h.2.2]
    cases l with
    | nil => rfl
    | cons s' l => simp [List.getLast?_cons]

/-- The bytes of the spans make up those of the whole range. -/
theorem Span.Tile.flatMap_eq {l : List Span} {start stop : Nat} (h : Tile l start stop)
    (html : ByteArray) :
    l.flatMap (fun s => (html.extract s.start s.stop).data.toList) =
      (html.extract start stop).data.toList := by
  induction l generalizing start with
  | nil =>
    cases h
    simp
  | cons s l ih =>
    obtain ⟨rfl, hle, hrest⟩ := h
    rw [List.flatMap_cons, ih hrest, ← Array.toList_append, ← ByteArray.data_append,
      ByteArray.extract_append_extract, Nat.min_eq_left hle, Nat.max_eq_right hrest.le]

theorem spans_closedBy (markers : Array (Marker ω δ)) (i closing : Nat) :
    spans (markers.modify i (·.closedBy closing)) = spans markers := by
  unfold spans
  apply List.ext_getElem?
  intro j
  simp only [List.getElem?_map, Array.getElem?_toList, Array.getElem?_modify]
  split
  · cases markers[j]? <;> simp
  · rfl

theorem spans_push (markers : Array (Marker ω δ)) (m : Marker ω δ) :
    spans (markers.push m) = spans markers ++ [m.span] := by
  simp [spans]

namespace Assembly

variable {a b : Assembly ω δ}

/-- The spans of the markers reach up to the last marker, which is in the literal bytes. -/
structure Tiled (a : Assembly ω δ) : Prop where
  tile : Span.Tile (spans a.markers) 0 a.lastPosition
  last_le : a.lastPosition ≤ a.html.size

namespace Tiled

/-- Only some parts of the assembly matter. -/
theorem congr (h : Tiled a) (hm : b.markers = a.markers) (hl : b.lastPosition = a.lastPosition)
    (hs : a.html.size ≤ b.html.size) : Tiled b :=
  ⟨hm ▸ hl ▸ h.tile, hl ▸ Nat.le_trans h.last_le hs⟩

theorem addMarker (h : Tiled a) (name : String) (action : Action ω δ) :
    Tiled (a.addMarker name action) := by
  refine ⟨?_, Nat.le_refl _⟩
  rw [Assembly.addMarker, spans_push]
  exact h.tile.append rfl h.last_le

theorem edit (he : Edit a b) (h : Tiled a) : Tiled b := by
  cases he with
  | bytes hr => exact h.congr rfl rfl (by simp)
  | declaration rest seen => exact h.congr rfl rfl (Nat.le_refl _)
  | content hin hc => exact h.congr rfl rfl (Nat.le_refl _)
  | unfold ho hin hcross => exact h.congr rfl rfl (Nat.le_refl _)
  | @close i rest ho hin hcross =>
    have hlast := h.addMarker ((a.markers[i]?.map Marker.name).getD "") (.wrapperEnd i)
    refine ⟨?_, Nat.le_refl _⟩
    rw [Assembly.closeWrapper, spans_closedBy]
    exact hlast.tile
  | @placed d isWrapper b hp =>
    cases hp with
    | plain run =>
      have hi : Tiled a.interrupt := h.congr rfl rfl (Nat.le_refl _)
      exact hi.addMarker _ _
    | attributes run =>
      have hr : Tiled { a with reader := a.reader.interrupt.attachMarker.1 } :=
        h.congr rfl rfl (Nat.le_refl _)
      exact hr.addMarker _ _
    | wrapper run =>
      have hnext := h.addMarker d.name (.wrapperStart run none)
      exact ⟨hnext.tile, hnext.last_le⟩
    | folded | foldedWrapper => exact h.congr rfl rfl (Nat.le_refl _)

end Tiled

/-! ## 5. Passes -/

variable {declarations : List (Declaration ω δ)} {tokens : List Token} {opened places : List Nat}

/-- The markers of a pass stand in the places of its tokens. -/
theorem traces_of_foldlM {pieces : List Piece} {counts : MarkerCounts}
    (hnodup : (declarations.map Declaration.name).Nodup)
    (hb : pieces.foldlM addPiece (Assembly.initial counts declarations) = .ok b) :
    ∃ opened, Traces declarations (pieces.filterMap Piece.token?) b opened
      (markerPlaces declarations (pieces.filterMap Piece.token?)) := by
  obtain ⟨opened, places, h⟩ :=
    (Traces.initial counts declarations).foldlM hnodup (.initial counts declarations) hb
  rw [List.nil_append] at h
  exact ⟨opened, eq_markerPlaces h.increasing h.mem_iff ▸ h⟩

/-- The literal bytes of a pass are those of its pieces. -/
theorem Traces.html_eq {pieces : List Piece} (h : Traces declarations tokens a opened places)
    (hnodup : (declarations.map Declaration.name).Nodup) (hdeclared : DeclaredIn declarations a)
    (hb : pieces.foldlM addPiece a = .ok b) :
    b.html = a.html ++ (pieces.flatMap (Piece.literal declarations)).toByteArray := by
  induction pieces generalizing a tokens opened places with
  | nil =>
    cases hb
    simp
  | cons p pieces ih =>
    obtain ⟨a', hp, hrest⟩ := exists_ok_of_bind hb
    have hdeclared' := hdeclared.addPiece hp
    rw [List.flatMap_cons, List.toByteArray_append, ← ByteArray.append_assoc]
    cases p with
    | text c =>
      obtain ⟨r, -, ha'⟩ := addBytes_eq_ok hp
      rw [ih (h.congr (by rw [ha']) (by rw [ha'])) hdeclared' hrest, ha']
      rfl
    | token t =>
      obtain ⟨opened', places', h'⟩ := h.addToken hnodup hdeclared hp
      rw [ih h' hdeclared' hrest, (Adds.of_addToken hnodup hdeclared.unused h.lt_size hp).html_eq]
      rfl

/-- The literal bytes of a pass from the start are those of its pieces. -/
theorem html_of_foldlM {pieces : List Piece} {counts : MarkerCounts}
    (hnodup : (declarations.map Declaration.name).Nodup)
    (hb : pieces.foldlM addPiece (Assembly.initial counts declarations) = .ok b) :
    b.html = (pieces.flatMap (Piece.literal declarations)).toByteArray := by
  rw [(Traces.initial counts declarations).html_eq hnodup (.initial counts declarations) hb]
  simp [Assembly.initial]

/-- What a pass has not added yet of the literal text is that of the other pieces. -/
theorem length_literalText {source : String} {front back : List Piece} {counts : MarkerCounts}
    (hnodup : (declarations.map Declaration.name).Nodup) (hpieces : pieces source = front ++ back)
    (hb : front.foldlM addPiece (Assembly.initial counts declarations) = .ok b) :
    (literalText source declarations).length =
      b.html.size + (back.flatMap (Piece.literal declarations)).length := by
  rw [html_of_foldlM hnodup hb, List.size_toByteArray, literalText_eq, hpieces, List.flatMap_append,
    List.length_append]

/-- There is room for a piece of a source whose literal text fits. -/
theorem length_literal_le_room {source : String} {front back : List Piece} {p : Piece}
    {counts : MarkerCounts} (hnodup : (declarations.map Declaration.name).Nodup)
    (hfits : LiteralFits source declarations) (hpieces : pieces source = front ++ p :: back)
    (hb : front.foldlM addPiece (Assembly.initial counts declarations) = .ok b) :
    (p.literal declarations).length ≤ b.room := by
  have hlength := length_literalText hnodup hpieces hb
  rw [List.flatMap_cons, List.length_append] at hlength
  refine Nat.le_sub_of_add_le' (Nat.le_trans ?_ hfits)
  rw [hlength, ← Nat.add_assoc]
  exact Nat.le_add_right _ _

/-- If there is no room for a piece, then the literal text does not fit. -/
theorem not_literalFits_of_room_lt {source : String} {front back : List Piece} {p : Piece}
    {counts : MarkerCounts} (hnodup : (declarations.map Declaration.name).Nodup)
    (hpieces : pieces source = front ++ p :: back)
    (hb : front.foldlM addPiece (Assembly.initial counts declarations) = .ok b)
    (hfull : b.room < (p.literal declarations).length) : ¬LiteralFits source declarations :=
  fun hfits => absurd (length_literal_le_room hnodup hfits hpieces hb) (Nat.not_le_of_lt hfull)

end Assembly

/-! ## 6. Compiled templates -/

/-- The place is that of a content token of the source: behind the literal text up to the
token, and behind the markers that the tokens before it leave. -/
def Place.LeftByContent (p : Place) (source : String) (declarations : List (Declaration ω δ)) :
    Prop :=
  ∃ k t, (Token.ofSource source)[k]? = some t ∧ t.kind = .content ∧
    p.offset = (literalThrough source declarations (k + 1)).length ∧
    p.marker = (markerPlaces declarations ((Token.ofSource source).take k)).length

/-- The literal bytes, markers and spans of the template are those of its source. -/
structure Template.Spells (t : Template ω δ) (source : String)
    (declarations : List (Declaration ω δ)) : Prop where
  bytes_eq : t.bytes = literalText source declarations
  markers : List.Forall₂ (LeftBy source declarations)
    (markerPlaces declarations (Token.ofSource source)) t.markers.toList
  tile : Span.Tile (spans t.markers) 0 ((t.markers.back?.map Marker.position).getD 0)

theorem exists_split_of_token {pieces : List Piece} {k : Nat} {t : Token}
    (h : (pieces.filterMap Piece.token?)[k]? = some t) :
    ∃ front back, pieces = front ++ .token t :: back ∧
      (front.filterMap Piece.token?).length = k := by
  induction pieces generalizing k with
  | nil => cases h
  | cons p pieces ih =>
    cases p with
    | text c =>
      obtain ⟨front, back, rfl, hk⟩ := ih h
      exact ⟨.text c :: front, back, rfl, hk⟩
    | token t' =>
      cases k with
      | zero =>
        cases h
        exact ⟨[], pieces, rfl, rfl⟩
      | succ k =>
        obtain ⟨front, back, rfl, hk⟩ := ih h
        exact ⟨.token t' :: front, back, rfl, congrArg (· + 1) hk⟩

namespace Assembly

variable {source : String} {declarations : List (Declaration ω δ)} {a : Assembly ω δ}
  {t : Template ω δ}

/-- The assemblies before and behind a token that stands behind the pieces `front`, in a pass
that ends with the assembly `a`. -/
structure AtToken (declarations : List (Declaration ω δ)) (front : List Piece) (tok : Token)
    (before behind a : Assembly ω δ) : Prop where
  adds : Adds declarations before behind tok
  content_eq : tok.kind = .content → behind.content = some before.place
  before_size : before.markers.size =
    (markerPlaces declarations (front.filterMap Piece.token?)).length
  behind_size : behind.markers.size =
    (markerPlaces declarations (front.filterMap Piece.token? ++ [tok])).length
  before_html : before.html = (front.flatMap (Piece.literal declarations)).toByteArray
  grows : Grows behind a

theorem AtToken.behind_html {front : List Piece} {tok : Token} {before behind : Assembly ω δ}
    (h : AtToken declarations front tok before behind a) : behind.html =
      ((front ++ [Piece.token tok]).flatMap (Piece.literal declarations)).toByteArray := by
  rw [h.adds.html_eq, h.before_html]
  simp [Piece.literal]

theorem atToken_of_compile? (h : compile? source declarations = .ok (a, t))
    {front back : List Piece} {tok : Token}
    (hpieces : pieces source = front ++ .token tok :: back) :
    ∃ before behind, AtToken declarations front tok before behind a := by
  have hnodup := nodup_of_compile? h
  obtain ⟨counts, hfold, -⟩ := compile?_eq_ok h
  rw [hpieces] at hfold
  obtain ⟨before, behind, hfront, htok, hback⟩ := foldlM_split hfold
  have hdeclared := declaredIn_of_foldlM hfront (.initial counts declarations)
  obtain ⟨opened, htraces⟩ := traces_of_foldlM hnodup hfront
  obtain ⟨opened', places', htraces'⟩ := htraces.addToken hnodup hdeclared htok
  refine ⟨before, behind, Adds.of_addToken hnodup hdeclared.unused htraces.lt_size htok, ?_,
    htraces.length_eq.symm, ?_, ?_, grows_of_foldlM hback⟩
  · intro hk
    rcases content_of_addPiece htok with ⟨t, -, -, -, hcontent⟩ | ⟨hne, -⟩
    · exact hcontent
    · exact absurd hk (hne tok rfl)
  · rw [← htraces'.length_eq, eq_markerPlaces htraces'.increasing htraces'.mem_iff]
  · exact html_of_foldlM hnodup hfront

/-- The marker that a token has added stands in the template, where it still says the same. -/
theorem AtToken.marker_eq {front : List Piece} {tok : Token} {before behind : Assembly ω δ}
    (h : AtToken declarations front tok before behind a)
    (hsize : before.markers.size < behind.markers.size) {m : Marker ω δ}
    (hm : a.markers[before.markers.size]? = some m) :
    m.position = behind.html.size ∧
      m.action.callback? = (tok.declaration? declarations).bind Declaration.callback := by
  have hn : behind.markers[before.markers.size]? = some behind.markers[before.markers.size] :=
    Array.getElem?_eq_getElem hsize
  rw [← h.adds.position_eq _ hn, ← h.adds.callback?_eq _ hn]
  rcases h.grows.marker _ _ hn with hm' | ⟨closing, hm'⟩
  · rw [hm] at hm'
    cases hm'
    exact ⟨rfl, rfl⟩
  · rw [hm] at hm'
    cases hm'
    exact ⟨Marker.position_closedBy _ _, Marker.callback?_closedBy _ _⟩

/-- Every marker is what the token of its place has left. -/
theorem leftBy_of_compile? (h : compile? source declarations = .ok (a, t)) {i k : Nat}
    {m : Marker ω δ} (hk : (markerPlaces declarations (Token.ofSource source))[i]? = some k)
    (hm : a.markers[i]? = some m) : LeftBy source declarations k m := by
  have hleaves := mem_markerPlaces.mp (List.mem_of_getElem? hk)
  obtain ⟨tok, htok⟩ : ∃ tok, (Token.ofSource source)[k]? = some tok :=
    ⟨_, List.getElem?_eq_getElem hleaves.lt_length⟩
  obtain ⟨front, back, hpieces, hlength⟩ := exists_split_of_token htok
  obtain ⟨before, behind, hat⟩ := atToken_of_compile? h hpieces
  have htokens : Token.ofSource source =
      front.filterMap Piece.token? ++ [tok] ++ back.filterMap Piece.token? := by
    simp [Token.ofSource, hpieces, Piece.token?]
  -- The places of the tokens up to this one are the first places, so the marker is the last one
  -- that the assembly behind the token has.
  have hlast : markerPlaces declarations (front.filterMap Piece.token? ++ [tok]) =
      markerPlaces declarations (front.filterMap Piece.token?) ++ [k] := by
    rw [← hlength, markerPlaces_snoc]
    rw [htokens, ← hlength] at hleaves
    exact (leavesMarker_append _ (by simp)).mp hleaves
  have hplace : (markerPlaces declarations (Token.ofSource source))[before.markers.size]? =
      some k := by
    obtain ⟨later, hlater⟩ := markerPlaces_prefix declarations
      (front.filterMap Piece.token? ++ [tok]) (back.filterMap Piece.token?)
    rw [htokens, ← hlater, hlast, hat.before_size]
    simp
  have hnodup : (markerPlaces declarations (Token.ofSource source)).Nodup :=
    (pairwise_markerPlaces _ _).imp Nat.ne_of_lt
  have hi : i = before.markers.size :=
    (List.getElem?_inj (List.getElem?_eq_some_iff.mp hk).1 hnodup).mp (hk.trans hplace.symm)
  obtain ⟨hposition, hcallback⟩ := hat.marker_eq
    (by rw [hat.before_size, hat.behind_size, hlast]; simp) (hi ▸ hm)
  obtain ⟨counts, hfold, -⟩ := compile?_eq_ok h
  obtain ⟨opened, htraces⟩ := traces_of_foldlM (nodup_of_compile? h) hfold
  obtain ⟨tok', htok', hfits⟩ := htraces.fits i k m hk hm
  have hsame : tok' = tok := Option.some.inj (htok'.symm.trans htok)
  refine ⟨⟨tok, htok, hsame ▸ hfits, hcallback⟩, ?_⟩
  rw [hposition, hat.behind_html, ← hlength, literalThrough_eq hpieces, List.size_toByteArray]

/-- The content point is that of a content token. -/
theorem leftByContent_of_compile? (h : compile? source declarations = .ok (a, t)) {p : Place}
    (hp : a.content = some p) : p.LeftByContent source declarations := by
  obtain ⟨counts, hfold, -⟩ := compile?_eq_ok h
  obtain ⟨front, tok, back, hpieces, hk⟩ := exists_content_of_foldlM hfold rfl hp
  obtain ⟨before, behind, hat⟩ := atToken_of_compile? h hpieces
  have hcontent := hat.grows.content _ (hat.content_eq hk)
  rw [hp] at hcontent
  cases hcontent
  have htokens : Token.ofSource source =
      front.filterMap Piece.token? ++ tok :: back.filterMap Piece.token? := by
    simp [Token.ofSource, hpieces, Piece.token?]
  have hnone : tok.replacement declarations = [] := by
    rw [Token.replacement, declaration?_eq_none (by rw [hk]; rfl)]
  refine ⟨(front.filterMap Piece.token?).length, tok, ?_, hk, ?_, ?_⟩
  · rw [htokens]
    simp
  · rw [literalThrough_eq hpieces, ← List.size_toByteArray, ← hat.behind_html, hat.adds.html_eq,
      hnone]
    simp [place]
  · rw [htokens, List.take_left, ← hat.before_size]
    rfl

theorem spells_of_compile? (h : compile? source declarations = .ok (a, t)) :
    t.Spells source declarations := by
  have hnodup := nodup_of_compile? h
  obtain ⟨counts, hfold, hfinish⟩ := compile?_eq_ok h
  obtain ⟨-, -, -, rfl⟩ := finish_eq_ok hfinish
  obtain ⟨opened, htraces⟩ := traces_of_foldlM hnodup hfold
  have htiled : Tiled a := invariant_of_foldlM (fun _ _ => Tiled.edit) hfold ⟨rfl, Nat.le_refl 0⟩
  refine ⟨?_, ?_, ?_⟩
  · show a.html.data.toList = _
    rw [literalText_eq, html_of_foldlM hnodup hfold, List.data_toByteArray]
  · rw [List.forall₂_iff_get]
    refine ⟨htraces.length_eq, fun i hi hm => ?_⟩
    exact leftBy_of_compile? h (List.getElem?_eq_getElem hi) (by simp [template])
  · have htile := htiled.tile
    rw [htile.stop_eq, spans, List.getLast?_map, Option.map_map, Array.getLast?_toList] at htile
    exact htile

/-- The literal text of a source that compiles fits. -/
theorem literalFits_of_compile? (h : compile? source declarations = .ok (a, t)) :
    LiteralFits source declarations := by
  obtain ⟨counts, hfold, -⟩ := compile?_eq_ok h
  have hpieces : pieces source = pieces source ++ [] := (List.append_nil _).symm
  rw [LiteralFits, length_literalText (nodup_of_compile? h) hpieces hfold]
  exact size_html_le_of_foldlM hfold (Nat.zero_le _)

end Assembly

/-- The bytes of the spans, and those behind the last marker, are all literal bytes. -/
theorem Template.Spells.spans_append_tail {t : Template ω δ} {source : String}
    {declarations : List (Declaration ω δ)} (h : t.Spells source declarations)
    (hordered : Ordered t.markers t.html.size) :
    (spans t.markers).flatMap (fun s => (t.html.extract s.start s.stop).data.toList) ++
        (t.html.extract ((t.markers.back?.map Marker.position).getD 0) t.html.size).data.toList =
      t.bytes := by
  have hle : (t.markers.back?.map Marker.position).getD 0 ≤ t.html.size := by
    cases hlast : t.markers.back? with
    | none => exact Nat.zero_le _
    | some m => exact hordered.position_le _ m (by rw [← hlast, Array.back?])
  rw [h.tile.flatMap_eq, ← Array.toList_append, ← ByteArray.data_append,
    ByteArray.extract_append_extract, Nat.min_eq_left (Nat.zero_le _), Nat.max_eq_right hle,
    ByteArray.extract_zero_size, Template.bytes]

/-- Of every compiled template, the literal bytes are the text of the source with every token
replaced by the static text of its declaration; the markers are what the named tokens with a
callback and the ends of their wrappers leave, in order and right behind their text; the spans
follow each other without gaps, so that with the tail they make up the literal bytes; and the
content point is that of a content token. -/
theorem literals_of_compile (source : String) (declarations : List (Declaration ω δ)) :
    (∀ c, Component.compile source declarations = .ok c →
      c.template.Spells source declarations ∧
        (spans c.markers).flatMap
            (fun s => (c.template.html.extract s.start s.stop).data.toList) ++
          c.htmlTail.data.toList = c.template.bytes) ∧
      ∀ w, Wrapper.compile source declarations = .ok w →
        w.template.Spells source declarations ∧ w.content.LeftByContent source declarations := by
  constructor
  · intro c h
    obtain ⟨a, t, ht, -, rfl⟩ := Component.compile_eq_ok h
    have hspells := Assembly.spells_of_compile? ht
    have hmarkers : t.markers.extract t.start.marker t.stop.marker = t.markers :=
      Array.extract_size
    refine ⟨hspells, ?_⟩
    rw [Component.htmlTail, Component.markers, hmarkers]
    exact hspells.spans_append_tail (Assembly.wellFormed_of_compile? ht).ordered
  · intro w h
    obtain ⟨a, t, content, ht, hcontent, rfl⟩ := Wrapper.compile_eq_ok h
    exact ⟨Assembly.spells_of_compile? ht, Assembly.leftByContent_of_compile? ht hcontent⟩

/-- The source `a${line}${{box}b${name}}}c`. -/
def namedBoxSource : String :=
  "a$\x7bline\x7d$\x7b\x7bbox\x7db$\x7bname\x7d\x7d\x7dc"

/-- The source `a${line}${{box}b${name}${}}}c`, with a content token. -/
def namedFrameSource : String :=
  "a$\x7bline\x7d$\x7b\x7bbox\x7db$\x7bname\x7d$\x7b\x7d\x7d\x7dc"

/-- The declarations of both: two static texts, of which the first leaves no marker. -/
def namedBox : List (Declaration Unit Unit) :=
  [(Declaration.fixed "line").withStatic "<br>",
    (Declaration.wrapper "box" fun _ => pure ()).withStatic "-", .plain "name" fun _ => pure ()]

theorem literals_of_namedBox :
    (∃ c, Component.compile namedBoxSource namedBox = .ok c ∧
      (c.template.Spells namedBoxSource namedBox ∧
        (spans c.markers).flatMap
            (fun s => (c.template.html.extract s.start s.stop).data.toList) ++
          c.htmlTail.data.toList = c.template.bytes) ∧
      c.template.html = "a<br>-bc".toUTF8 ∧ spans c.markers = [⟨0, 6⟩, ⟨6, 7⟩, ⟨7, 7⟩]) ∧
    ∃ w, Wrapper.compile namedFrameSource namedBox = .ok w ∧
      (w.template.Spells namedFrameSource namedBox ∧
        w.content.LeftByContent namedFrameSource namedBox) ∧
      w.content = ⟨2, 7⟩ := by
  have hcomponent : (Component.compile namedBoxSource namedBox).toOption.any fun c =>
      c.template.html = "a<br>-bc".toUTF8 && spans c.markers = [⟨0, 6⟩, ⟨6, 7⟩, ⟨7, 7⟩] := by
    decide +kernel
  have hwrapper : (Wrapper.compile namedFrameSource namedBox).toOption.any fun w =>
      w.content = ⟨2, 7⟩ := by
    decide +kernel
  obtain ⟨c, hc, hvalues⟩ := exists_ok_of_any hcomponent
  obtain ⟨w, hw, hcontent⟩ := exists_ok_of_any hwrapper
  simp only [Bool.and_eq_true, decide_eq_true_eq] at hvalues hcontent
  exact ⟨⟨c, hc, (literals_of_compile _ _).1 c hc, hvalues⟩,
    w, hw, (literals_of_compile _ _).2 w hw, hcontent⟩

end HtmlTemplate
