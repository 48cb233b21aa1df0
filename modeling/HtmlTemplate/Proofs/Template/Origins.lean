import HtmlTemplate.Proofs.Template.Compiled
import HtmlTemplate.Proofs.Template.Pairing
import Mathlib.Data.List.Forall2
import Mathlib.Data.List.Nodup
import Mathlib.Order.Bounds.Basic

/-!
# Which tokens markers come from

A marker is what a token of the source has left. Named tokens leave one if their
declaration has a callback, wrapper ends if the start that they belong to has left one.
So the wrapper markers are paired as the tokens are, without the pairs that leave no
markers.

Results:
1. `LeavesMarker`: whether a token leaves a marker, said of the tokens and declarations
   alone.
2. `Assembly.Traces`: the tokens met so far, those of the open wrappers, and those that
   have left the markers. Each token keeps it (`Traces.addToken`).
3. `wrappersPaired_of_compile`: the wrapper markers of a compiled template are paired one
   to one, properly nested, and as the tokens of the source; and the greatest nesting is
   what it says.
-/

namespace HtmlTemplate

open Brackets

variable {ω δ : Type}

/-! ## 1. Tokens that leave markers -/

/-- Which bracket a token is. -/
def Token.bracket? (t : Token) : Option Bracket :=
  match t.kind with
  | .wrapperStart _ => some .opening
  | .wrapperEnd => some .closing
  | .plain _ => none
  | .content => none

/-- The token with the index `k` is named, and its declaration has a callback. -/
def KeptAt (declarations : List (Declaration ω δ)) (tokens : List Token) (k : Nat) : Prop :=
  ∃ t d, tokens[k]? = some t ∧ d ∈ declarations ∧ t.kind.name? = some d.name ∧
    d.callback.isSome = true

/-- The token with the index `k` leaves a marker: it is named and its declaration has a
callback, or it ends a wrapper whose start is such a token. -/
def LeavesMarker (declarations : List (Declaration ω δ)) (tokens : List Token) (k : Nat) : Prop :=
  KeptAt declarations tokens k ∨ ∃ j, Pair Token.bracket? tokens j k ∧ KeptAt declarations tokens j

/-- The marker is of the kind that the token makes, and has its name. -/
def Marker.FitsToken (m : Marker ω δ) (t : Token) : Prop :=
  match m.kind with
  | .wrapperStart => t.kind = .wrapperStart m.name
  | .wrapperEnd => t.kind = .wrapperEnd
  | .plain => t.kind = .plain m.name
  | .attributes => t.kind = .plain m.name

section

variable {declarations : List (Declaration ω δ)} {tokens : List Token} {t : Token} {k : Nat}

theorem KeptAt.lt_length (h : KeptAt declarations tokens k) : k < tokens.length := by
  obtain ⟨t, -, ht, -⟩ := h
  exact (List.getElem?_eq_some_iff.mp ht).1

theorem keptAt_append (l : List Token) (hk : k < tokens.length) :
    KeptAt declarations (tokens ++ l) k ↔ KeptAt declarations tokens k := by
  simp only [KeptAt, List.getElem?_append_left hk]

theorem LeavesMarker.lt_length (h : LeavesMarker declarations tokens k) : k < tokens.length := by
  rcases h with h | ⟨j, hp, -⟩
  · exact h.lt_length
  · exact hp.lt.2

/-- The tokens behind do not matter. -/
theorem leavesMarker_append (l : List Token) (hk : k < tokens.length) :
    LeavesMarker declarations (tokens ++ l) k ↔ LeavesMarker declarations tokens k := by
  have hj : ∀ {j}, Pair Token.bracket? tokens j k → j < tokens.length := fun hp =>
    Nat.lt_trans hp.lt.1 hk
  refine or_congr (keptAt_append l hk) ⟨?_, ?_⟩
  · rintro ⟨j, hp, hkept⟩
    have hp' := hp.of_append hk
    exact ⟨j, hp', (keptAt_append l (hj hp')).mp hkept⟩
  · rintro ⟨j, hp, hkept⟩
    exact ⟨j, hp.append l, (keptAt_append l (hj hp)).mpr hkept⟩

/-- A token at the end that is no wrapper end. -/
theorem leavesMarker_last_iff (ht : t.bracket? ≠ some .closing) :
    LeavesMarker declarations (tokens ++ [t]) tokens.length ↔
      ∃ d ∈ declarations, t.kind.name? = some d.name ∧ d.callback.isSome = true := by
  have hlast : (tokens ++ [t])[tokens.length]? = some t := by simp
  constructor
  · rintro (⟨t', d, ht', hd, hname, hc⟩ | ⟨j, hp, -⟩)
    · rw [hlast] at ht'
      cases ht'
      exact ⟨d, hd, hname, hc⟩
    · obtain ⟨e, he, hclosing⟩ := hp.getElem?_right
      rw [hlast] at he
      cases he
      exact absurd hclosing ht
  · rintro ⟨d, hd, hname, hc⟩
    exact .inl ⟨t, d, hlast, hd, hname, hc⟩

/-- A wrapper end at the end, which belongs to the token with the index `i`. -/
theorem leavesMarker_closing_iff {i : Nat} (ht : t.kind = .wrapperEnd)
    (hp : Pair Token.bracket? (tokens ++ [t]) i tokens.length) :
    LeavesMarker declarations (tokens ++ [t]) tokens.length ↔ KeptAt declarations tokens i := by
  have hi : i < tokens.length := hp.lt.1
  constructor
  · rintro (⟨t', d, ht', -, hname, -⟩ | ⟨j, hp', hkept⟩)
    · rw [show (tokens ++ [t])[tokens.length]? = some t by simp] at ht'
      cases ht'
      rw [ht] at hname
      cases hname
    · rw [hp.left_unique hp']
      exact (keptAt_append [t] (hp'.lt.1)).mp hkept
  · exact fun h => .inr ⟨i, hp, (keptAt_append [t] hi).mpr h⟩

end

/-- A marker that has only learned of its end fits the same token. -/
theorem Marker.fitsToken_closedBy (m : Marker ω δ) (closing : Nat) (t : Token) :
    (m.closedBy closing).FitsToken t ↔ m.FitsToken t := by
  simp only [Marker.FitsToken, Marker.kind_closedBy, Marker.name_closedBy]

/-- A name is declared once. -/
theorem not_exists_callback {declarations : List (Declaration ω δ)} {d : Declaration ω δ}
    (hnodup : (declarations.map Declaration.name).Nodup) (hd : d ∈ declarations)
    (hc : d.callback = none) :
    ¬∃ d' ∈ declarations, some d.name = some d'.name ∧ d'.callback.isSome = true := by
  rintro ⟨d', hd', hname, hc'⟩
  have hsame : d = d' := List.inj_on_of_nodup_map hnodup hd hd' (Option.some.inj hname)
  rw [← hsame, hc] at hc'
  cases hc'

theorem firstRepeated?_eq_none {seen names : List String} (h : firstRepeated? seen names = none) :
    names.Nodup ∧ ∀ name ∈ names, name ∉ seen := by
  induction names generalizing seen with
  | nil => exact ⟨.nil, fun name hname => absurd hname List.not_mem_nil⟩
  | cons name names ih =>
    unfold firstRepeated? at h
    split at h
    · cases h
    · next hseen =>
      obtain ⟨hnodup, hnot⟩ := ih h
      refine ⟨List.nodup_cons.mpr ⟨fun hmem => hnot name hmem List.mem_cons_self, hnodup⟩, ?_⟩
      intro other hother
      rcases List.mem_cons.mp hother with rfl | hother
      · exact hseen
      · exact fun hmem => hnot other hother (List.mem_cons_of_mem _ hmem)

/-- Of different names none is repeated. -/
theorem firstRepeated?_of_nodup {seen names : List String} (h : names.Nodup)
    (hseen : ∀ name ∈ names, name ∉ seen) : firstRepeated? seen names = none := by
  induction names generalizing seen with
  | nil => rfl
  | cons name names ih =>
    obtain ⟨hname, hnodup⟩ := List.nodup_cons.mp h
    rw [firstRepeated?, if_neg (hseen name List.mem_cons_self)]
    refine ih hnodup fun other hother hmem => ?_
    rcases List.mem_cons.mp hmem with rfl | hmem
    · exact hname hother
    · exact hseen other (List.mem_cons_of_mem name hother) hmem

/-- The declarations of a template have different names. -/
theorem nodup_of_compile? {source : String} {declarations : List (Declaration ω δ)}
    {r : Assembly ω δ × Template ω δ} (h : compile? source declarations = .ok r) :
    (declarations.map Declaration.name).Nodup := by
  unfold compile? at h
  cases hf : firstRepeated? [] (declarations.map Declaration.name) with
  | some name =>
    simp only [hf] at h
    cases h
  | none => exact (firstRepeated?_eq_none hf).1

/-- Behind a pass over all pieces the assembly is only finished. -/
theorem compile?_eq_finish {source : String} {declarations : List (Declaration ω δ)}
    {a : Assembly ω δ} (hnodup : (declarations.map Declaration.name).Nodup)
    (hfold : (pieces source).foldlM Assembly.addPiece (Assembly.atStart source declarations) =
      .ok a) : compile? source declarations = a.finish.map fun t => (a, t) := by
  have hfirst : firstRepeated? [] (declarations.map Declaration.name) = none :=
    firstRepeated?_of_nodup hnodup fun _ _ => List.not_mem_nil
  simp only [compile?, hfirst]
  show ((pieces source).foldlM Assembly.addPiece (Assembly.atStart source declarations) >>= _) = _
  rw [hfold]
  show (a.finish >>= _) = _
  cases a.finish <;> rfl

/-- A source is refused for what a piece is refused for. -/
theorem compile?_of_refused {source : String} {declarations : List (Declaration ω δ)}
    {e : TemplateError} (hnodup : (declarations.map Declaration.name).Nodup)
    (hfold : (pieces source).foldlM Assembly.addPiece (Assembly.atStart source declarations) =
      .error e) : compile? source declarations = .error e := by
  have hfirst : firstRepeated? [] (declarations.map Declaration.name) = none :=
    firstRepeated?_of_nodup hnodup fun _ _ => List.not_mem_nil
  simp only [compile?, hfirst]
  show ((pieces source).foldlM Assembly.addPiece (Assembly.atStart source declarations) >>= _) = _
  rw [hfold]
  rfl

/-- A pass over all pieces that can be finished compiles the source. -/
theorem compile?_of_pass {source : String} {declarations : List (Declaration ω δ)}
    {a : Assembly ω δ} {t : Template ω δ} (hnodup : (declarations.map Declaration.name).Nodup)
    (hfold : (pieces source).foldlM Assembly.addPiece (Assembly.atStart source declarations) =
      .ok a) (hfinish : a.finish = .ok t) : compile? source declarations = .ok (a, t) := by
  rw [compile?_eq_finish hnodup hfold, hfinish]
  rfl

/-! ## 2. Assemblies -/

namespace Assembly

variable {declarations : List (Declaration ω δ)} {tokens : List Token} {a b : Assembly ω δ}
  {t : Token} {opened opened' places : List Nat}

/-- The token with the index `k` has opened a wrapper, which is on the stack of the
assembly as `wrapper`. -/
def Opens (declarations : List (Declaration ω δ)) (tokens : List Token) (places : List Nat)
    (k : Nat) (wrapper : Option Nat) : Prop :=
  match wrapper with
  | some i => places[i]? = some k ∧ KeptAt declarations tokens k
  | none => ¬KeptAt declarations tokens k

/-- The assembly after the tokens: those with the indices `opened` are wrapper starts that
are still open, and those with the indices `places` have left the markers. -/
structure Traces (declarations : List (Declaration ω δ)) (tokens : List Token)
    (a : Assembly ω δ) (opened places : List Nat) : Prop where
  unclosed : Unclosed Token.bracket? tokens opened
  stack : List.Forall₂ (Opens declarations tokens places) opened a.openWrappers
  length_eq : places.length = a.markers.size
  increasing : places.Pairwise (· < ·)
  mem_iff : ∀ k, k ∈ places ↔ LeavesMarker declarations tokens k
  fits : ∀ (i k : Nat) (m : Marker ω δ), places[i]? = some k → a.markers[i]? = some m →
    ∃ t, tokens[k]? = some t ∧ m.FitsToken t
  pair : ∀ i e, openingAt? a.markers e = some i →
    ∃ j k, places[i]? = some j ∧ places[e]? = some k ∧ Pair Token.bracket? tokens j k

theorem Opens.append {k : Nat} {wrapper : Option Nat} (hk : k < tokens.length)
    (h : Opens declarations tokens places k wrapper) (l : List Token) (places' : List Nat) :
    Opens declarations (tokens ++ l) (places ++ places') k wrapper := by
  cases wrapper with
  | none => exact fun hkept => h ((keptAt_append l hk).mp hkept)
  | some i =>
    obtain ⟨hi, hkept⟩ := h
    have hlt := (List.getElem?_eq_some_iff.mp hi).1
    exact ⟨by rw [List.getElem?_append_left hlt, hi], (keptAt_append l hk).mpr hkept⟩

namespace Traces

theorem initial (counts : MarkerCounts) (declarations : List (Declaration ω δ)) :
    Traces declarations [] (Assembly.initial counts declarations) [] [] where
  unclosed := .none .nil
  stack := .nil
  length_eq := rfl
  increasing := .nil
  mem_iff := fun k => iff_of_false List.not_mem_nil fun h => absurd h.lt_length (Nat.not_lt_zero k)
  fits := fun i k m hk => by simp at hk
  pair := fun i e he => by simp [openingAt?, Assembly.initial] at he

/-- Only some parts of the assembly matter. -/
theorem congr (h : Traces declarations tokens a opened places) (hm : b.markers = a.markers)
    (ho : b.openWrappers = a.openWrappers) : Traces declarations tokens b opened places :=
  ⟨h.unclosed, ho ▸ h.stack, hm ▸ h.length_eq, h.increasing, h.mem_iff, hm ▸ h.fits, hm ▸ h.pair⟩

theorem lt_length {k : Nat} (h : Traces declarations tokens a opened places) (hk : k ∈ places) :
    k < tokens.length :=
  ((h.mem_iff k).mp hk).lt_length

/-- Tokens and places may follow those of the open wrappers. -/
theorem stack_append (h : Traces declarations tokens a opened places) (l : List Token)
    (places' : List Nat) :
    List.Forall₂ (Opens declarations (tokens ++ l) (places ++ places')) opened a.openWrappers := by
  have hlt : ∀ k ∈ opened, k < tokens.length := fun k hk => h.unclosed.lt_length hk
  exact List.Forall₂.imp (fun _ _ ⟨hk, ho⟩ => ho.append hk l places')
    ((List.forall₂_and_left _ _).mpr ⟨hlt, h.stack⟩)

/-- The same where no marker is added. -/
theorem stack_token (h : Traces declarations tokens a opened places) (t : Token) :
    List.Forall₂ (Opens declarations (tokens ++ [t]) places) opened a.openWrappers := by
  simpa using h.stack_append [t] []

/-- A token that leaves no marker. -/
theorem skip (h : Traces declarations tokens a opened places)
    (ht : ¬LeavesMarker declarations (tokens ++ [t]) tokens.length)
    (hu : Unclosed Token.bracket? (tokens ++ [t]) opened')
    (hs : List.Forall₂ (Opens declarations (tokens ++ [t]) places) opened' b.openWrappers)
    (hm : b.markers = a.markers) : Traces declarations (tokens ++ [t]) b opened' places := by
  refine ⟨hu, hs, hm ▸ h.length_eq, h.increasing, fun k => ?_, ?_, ?_⟩
  · rcases Nat.lt_or_ge k tokens.length with hk | hk
    · rw [h.mem_iff, leavesMarker_append [t] hk]
    · refine iff_of_false (fun hmem => Nat.not_le_of_lt (h.lt_length hmem) hk) fun hl => ?_
      have hlt := hl.lt_length
      rw [List.length_append, List.length_singleton] at hlt
      have : k = tokens.length := by omega
      exact ht (this ▸ hl)
  · intro i k m hk hi
    rw [hm] at hi
    obtain ⟨t', ht', hfits⟩ := h.fits i k m hk hi
    have hlt := (List.getElem?_eq_some_iff.mp ht').1
    exact ⟨t', by rw [List.getElem?_append_left hlt, ht'], hfits⟩
  · intro i e he
    rw [hm] at he
    obtain ⟨j, k, hj, hk, hp⟩ := h.pair i e he
    exact ⟨j, k, hj, hk, hp.append [t]⟩

/-- A token that leaves a marker. -/
theorem leave (h : Traces declarations tokens a opened places) (hgrows : Grows a b)
    (ht : LeavesMarker declarations (tokens ++ [t]) tokens.length)
    (hu : Unclosed Token.bracket? (tokens ++ [t]) opened')
    (hs : List.Forall₂ (Opens declarations (tokens ++ [t]) (places ++ [tokens.length])) opened'
      b.openWrappers)
    (hsize : b.markers.size = a.markers.size + 1)
    (hfits : ∀ m, b.markers[a.markers.size]? = some m → m.FitsToken t)
    (hpair : ∀ i, openingAt? b.markers a.markers.size = some i →
      ∃ j, places[i]? = some j ∧ Pair Token.bracket? (tokens ++ [t]) j tokens.length) :
    Traces declarations (tokens ++ [t]) b opened' (places ++ [tokens.length]) := by
  have hlast : (places ++ [tokens.length])[a.markers.size]? = some tokens.length := by
    rw [← h.length_eq]
    simp
  have hplace : ∀ {i j : Nat}, places[i]? = some j →
      (places ++ [tokens.length])[i]? = some j := by
    intro i j hi
    rw [List.getElem?_append_left (List.getElem?_eq_some_iff.mp hi).1, hi]
  -- Each marker is an old one, which may have learned of its end, or the last one.
  have hmarker : ∀ {i : Nat} {m : Marker ω δ}, b.markers[i]? = some m →
      i = a.markers.size ∨ (i < a.markers.size ∧ ∃ m₀, a.markers[i]? = some m₀ ∧
        (m = m₀ ∨ ∃ closing, m = m₀.closedBy closing)) := by
    intro i m hm
    have hlt := (Array.getElem?_eq_some_iff.mp hm).1
    rcases Nat.lt_or_ge i a.markers.size with hi | hi
    · have hm₀ : a.markers[i]? = some a.markers[i] := Array.getElem?_eq_getElem hi
      refine .inr ⟨hi, _, hm₀, ?_⟩
      rcases hgrows.marker i _ hm₀ with hb | ⟨closing, hb⟩
      · rw [hm] at hb
        exact .inl (Option.some.inj hb)
      · rw [hm] at hb
        exact .inr ⟨closing, Option.some.inj hb⟩
    · exact .inl (by omega)
  refine ⟨hu, hs, ?_, ?_, fun k => ?_, ?_, ?_⟩
  · rw [List.length_append, List.length_singleton, h.length_eq, hsize]
  · refine List.pairwise_append.mpr ⟨h.increasing, List.pairwise_singleton _ _, ?_⟩
    intro k hk n hn
    rw [List.mem_singleton.mp hn]
    exact h.lt_length hk
  · rw [List.mem_append, List.mem_singleton]
    constructor
    · rintro (hk | rfl)
      · exact (leavesMarker_append [t] (h.lt_length hk)).mpr ((h.mem_iff k).mp hk)
      · exact ht
    · intro hl
      have hlt := hl.lt_length
      rw [List.length_append, List.length_singleton] at hlt
      rcases Nat.lt_succ_iff_lt_or_eq.mp hlt with hk | hk
      · exact .inl ((h.mem_iff k).mpr ((leavesMarker_append [t] hk).mp hl))
      · exact .inr hk
  · intro i k m hk hi
    rcases hmarker hi with rfl | ⟨hlt, m₀, hm₀, hsame⟩
    · rw [hlast] at hk
      cases hk
      exact ⟨t, by simp, hfits m hi⟩
    · rw [List.getElem?_append_left (h.length_eq ▸ hlt)] at hk
      obtain ⟨t', ht', hfit⟩ := h.fits i k m₀ hk hm₀
      refine ⟨t', by rw [List.getElem?_append_left (List.getElem?_eq_some_iff.mp ht').1, ht'], ?_⟩
      rcases hsame with rfl | ⟨closing, rfl⟩
      · exact hfit
      · exact (m₀.fitsToken_closedBy closing t').mpr hfit
  · intro i e he
    obtain ⟨m, hm, ha⟩ := openingAt?_eq_some.mp he
    rcases hmarker hm with rfl | ⟨hlt, m₀, hm₀, hsame⟩
    · obtain ⟨j, hj, hp⟩ := hpair i he
      exact ⟨j, tokens.length, hplace hj, hlast, hp⟩
    · have ha₀ : m₀.action = .wrapperEnd i := by
        rcases hsame with rfl | ⟨closing, rfl⟩
        · exact ha
        · exact action_closedBy_eq_wrapperEnd.mp ha
      obtain ⟨j, k, hj, hk, hp⟩ := h.pair i e (openingAt?_eq_some.mpr ⟨m₀, hm₀, ha₀⟩)
      exact ⟨j, k, hplace hj, hplace hk, hp.append [t]⟩

/-- A token that leaves a marker of its own name. -/
theorem push (h : Traces declarations tokens a opened places) {m : Marker ω δ}
    (hm : b.markers = a.markers.push m) (hgrows : Grows a b) (hfits : m.FitsToken t)
    (hend : m.opening? = none) {d : Declaration ω δ} (hd : d ∈ declarations)
    (hname : t.kind.name? = some d.name) (hc : d.callback.isSome = true)
    (hu : Unclosed Token.bracket? (tokens ++ [t]) opened')
    (hs : List.Forall₂ (Opens declarations (tokens ++ [t]) (places ++ [tokens.length])) opened'
      b.openWrappers) :
    Traces declarations (tokens ++ [t]) b opened' (places ++ [tokens.length]) := by
  have hlast : b.markers[a.markers.size]? = some m := by rw [hm, Array.getElem?_push_size]
  refine h.leave hgrows (.inl ⟨t, d, by simp, hd, hname, hc⟩) hu hs ?_ ?_ ?_
  · rw [hm, Array.size_push]
  · intro n hn
    rw [hlast] at hn
    cases hn
    exact hfits
  · intro i hi
    rw [openingAt?, hlast, Option.bind_some, hend] at hi
    cases hi

/-! ## 3. Tokens -/

theorem addContent (h : Traces declarations tokens a opened places) (ht : t.kind = .content)
    (hb : a.addContent t.start = .ok b) : Traces declarations (tokens ++ [t]) b opened places := by
  obtain ⟨-, -, rfl⟩ := addContent_eq_ok hb
  have hside : t.bracket? = none := by rw [Token.bracket?, ht]
  refine h.skip ?_ (h.unclosed.other hside) (h.stack_token t) rfl
  rw [leavesMarker_last_iff (by simp [hside]), ht]
  rintro ⟨d, -, hname, -⟩
  cases hname

theorem addWrapperEnd (h : Traces declarations tokens a opened places) (ht : t.kind = .wrapperEnd)
    (hb : a.addWrapperEnd t.start = .ok b) :
    ∃ opened' places', Traces declarations (tokens ++ [t]) b opened' places' := by
  have hedit := edit_of_addWrapperEnd hb
  obtain ⟨wrapper, rest, ho, -, -, hb⟩ := addWrapperEnd_eq_ok hb
  have hside : t.bracket? = some .closing := by rw [Token.bracket?, ht]
  have hstack := h.stack
  rw [ho] at hstack
  obtain ⟨k, opened', hhead, htail, rfl⟩ := List.forall₂_cons_right_iff.mp hstack
  obtain ⟨hu, hp⟩ := h.unclosed.closing hside
  have hleaves : LeavesMarker declarations (tokens ++ [t]) tokens.length ↔
      KeptAt declarations tokens k := leavesMarker_closing_iff ht hp
  have hrest := h.stack_append [t] [tokens.length]
  rw [ho] at hrest
  cases wrapper with
  | none =>
    subst hb
    have hsame := h.stack_token t
    rw [ho] at hsame
    exact ⟨opened', places, h.skip (fun hl => hhead (hleaves.mp hl)) hu
      (List.forall₂_cons.mp hsame).2 rfl⟩
  | some i =>
    obtain ⟨hi, hkept⟩ := hhead
    have hlt : i < a.markers.size := h.length_eq ▸ (List.getElem?_eq_some_iff.mp hi).1
    obtain ⟨m, hm, -, hmarkers⟩ :=
      markers_closeWrapper { a with reader := a.reader.interrupt, openWrappers := rest } i
    -- The new end stands behind its start, which alone learns of it.
    have hlast : b.markers[a.markers.size]? = some m := by
      rw [hb, hmarkers, Array.getElem?_modify, if_neg (Nat.ne_of_lt hlt)]
      exact Array.getElem?_push_size
    refine ⟨opened', places ++ [tokens.length], h.leave (.edit hedit) (hleaves.mpr hkept) hu ?_ ?_
      ?_ ?_⟩
    · rw [hb]
      exact (List.forall₂_cons.mp hrest).2
    · rw [hb, hmarkers, Array.size_modify, Array.size_push]
    · intro n hn
      rw [hlast] at hn
      cases hn
      simp only [Marker.FitsToken, Marker.kind, Action.kind, hm]
      exact ht
    · intro j hj
      rw [openingAt?, hlast, Option.bind_some, Marker.opening?_eq_some_iff, hm] at hj
      cases hj
      exact ⟨k, hi, hp⟩

theorem addNamed (h : Traces declarations tokens a opened places)
    (hnodup : (declarations.map Declaration.name).Nodup) (hdeclared : DeclaredIn declarations a)
    {name : String} {isWrapper : Bool}
    (ht : t.kind = if isWrapper then .wrapperStart name else .plain name)
    (hb : a.addNamed name isWrapper t.start = .ok b) :
    ∃ opened' places', Traces declarations (tokens ++ [t]) b opened' places' := by
  have hgrows := grows_of_edits (edits_of_addNamed hb)
  obtain ⟨d, rest, r, hds, rfl, -, -, hp⟩ := addNamed_eq_ok hb
  have hd : d ∈ declarations := hdeclared.unused d (hds ▸ List.mem_cons_self)
  have hname : t.kind.name? = some d.name := by
    rw [ht]
    cases isWrapper <;> rfl
  -- Without a callback, no declaration of the name has one.
  have hfolded : d.callback = none → t.bracket? ≠ some .closing →
      ¬LeavesMarker declarations (tokens ++ [t]) tokens.length := by
    intro hc hside hl
    obtain ⟨d', hd', hname', hc'⟩ := (leavesMarker_last_iff hside).mp hl
    exact not_exists_callback hnodup hd hc ⟨d', hd', hname.symm.trans hname', hc'⟩
  cases hp with
  | plain run hc hin hend =>
    have hside : t.bracket? = none := by rw [Token.bracket?, ht]; rfl
    exact ⟨opened, _, h.push rfl hgrows ht rfl hd hname (by simp [hc]) (h.unclosed.other hside)
      (h.stack_append [t] _)⟩
  | attributes run hc hin =>
    have hside : t.bracket? = none := by rw [Token.bracket?, ht]; rfl
    exact ⟨opened, _, h.push rfl hgrows ht rfl hd hname (by simp [hc]) (h.unclosed.other hside)
      (h.stack_append [t] _)⟩
  | wrapper run hc hin =>
    have hside : t.bracket? = some .opening := by rw [Token.bracket?, ht]; rfl
    refine ⟨_, _, h.push rfl hgrows ht rfl hd hname (by simp [hc]) (h.unclosed.opening hside) ?_⟩
    refine .cons ⟨?_, t, d, by simp, hd, hname, by simp [hc]⟩ (h.stack_append [t] _)
    show (places ++ [tokens.length])[a.markers.size]? = some tokens.length
    rw [← h.length_eq]
    simp
  | folded hc hend =>
    have hside : t.bracket? = none := by rw [Token.bracket?, ht]; rfl
    exact ⟨opened, places, h.skip (hfolded hc (by simp [hside])) (h.unclosed.other hside)
      (h.stack_token t) rfl⟩
  | foldedWrapper hc hin =>
    have hside : t.bracket? = some .opening := by rw [Token.bracket?, ht]; rfl
    have hleaves := hfolded hc (by simp [hside])
    exact ⟨_, places, h.skip hleaves (h.unclosed.opening hside)
      (.cons (fun hkept => hleaves (.inl hkept)) (h.stack_token t)) rfl⟩

theorem addToken (h : Traces declarations tokens a opened places)
    (hnodup : (declarations.map Declaration.name).Nodup) (hdeclared : DeclaredIn declarations a)
    (hb : a.addToken t = .ok b) :
    ∃ opened' places', Traces declarations (tokens ++ [t]) b opened' places' := by
  unfold Assembly.addToken at hb
  split at hb
  · next ht => exact ⟨opened, places, h.addContent ht hb⟩
  · next ht => exact h.addWrapperEnd ht hb
  · next name ht =>
    exact h.addNamed hnodup hdeclared (show t.kind = if true then _ else _ from ht) hb
  · next name ht =>
    exact h.addNamed hnodup hdeclared (show t.kind = if false then _ else _ from ht) hb

/-- The markers of the whole source come from its tokens. -/
theorem foldlM {pieces : List Piece} (h : Traces declarations tokens a opened places)
    (hnodup : (declarations.map Declaration.name).Nodup) (hdeclared : DeclaredIn declarations a)
    (hb : pieces.foldlM addPiece a = .ok b) :
    ∃ opened' places',
      Traces declarations (tokens ++ pieces.filterMap Piece.token?) b opened' places' := by
  induction pieces generalizing a tokens opened places with
  | nil =>
    cases hb
    exact ⟨opened, places, by simpa using h⟩
  | cons p pieces ih =>
    obtain ⟨a', hp, hrest⟩ := exists_ok_of_bind hb
    have hdeclared' := hdeclared.addPiece hp
    cases p with
    | text c =>
      obtain ⟨r, -, ha'⟩ := addBytes_eq_ok hp
      exact ih (h.congr (by rw [ha']) (by rw [ha'])) hdeclared' hrest
    | token t =>
      obtain ⟨opened', places', h'⟩ := h.addToken hnodup hdeclared hp
      simpa [Piece.token?] using ih h' hdeclared' hrest

end Traces

end Assembly

/-! ## 4. Compiled templates -/

/-- The markers are what the tokens with the indices `places` have left, in their order,
and are paired as these are. -/
structure Traced (declarations : List (Declaration ω δ)) (tokens : List Token)
    (markers : Array (Marker ω δ)) (places : List Nat) : Prop where
  length_eq : places.length = markers.size
  increasing : places.Pairwise (· < ·)
  mem_iff : ∀ k, k ∈ places ↔ LeavesMarker declarations tokens k
  fits : ∀ (i k : Nat) (m : Marker ω δ), places[i]? = some k → markers[i]? = some m →
    ∃ t, tokens[k]? = some t ∧ m.FitsToken t
  pair_iff : ∀ i e j k, places[i]? = some j → places[e]? = some k →
    (closingAt? markers i = some e ↔ Pair Token.bracket? tokens j k)

/-- The wrapper markers of a template are pairs, which are those of the source. -/
structure Template.WrappersPaired (t : Template ω δ) (source : String)
    (declarations : List (Declaration ω δ)) (maxNesting : Nat) : Prop where
  /-- Start and end know of each other. -/
  closing_iff : ∀ i e, closingAt? t.markers i = some e ↔ openingAt? t.markers e = some i
  /-- Every start knows its end. -/
  closed : ∀ (i : Nat) (m : Marker ω δ), t.markers[i]? = some m → m.kind = .wrapperStart →
    ∃ e, closingAt? t.markers i = some e
  lt : ∀ i e, closingAt? t.markers i = some e → i < e ∧ e < t.markers.size
  apart_or_nested : ∀ i e i' e', closingAt? t.markers i = some e →
    closingAt? t.markers i' = some e' →
      (i = i' ∧ e = e') ∨ e < i' ∨ e' < i ∨ (i < i' ∧ e' < e) ∨ (i' < i ∧ e < e')
  name_eq : ∀ (i e : Nat) (m n : Marker ω δ), closingAt? t.markers i = some e →
    t.markers[i]? = some m → t.markers[e]? = some n → n.name = m.name
  matching : ∃ places, Traced declarations (Token.ofSource source) t.markers places
  /-- The greatest nesting is the greatest number of starts without their ends. -/
  nesting : IsGreatest
    {n : Int | ∃ k, k ≤ t.markers.size ∧ n = rise Marker.bracket? (t.markers.toList.take k)}
    maxNesting
  nesting_eq_zero_iff : maxNesting = 0 ↔ ∀ m ∈ t.markers, m.bracket? = none

namespace Assembly

variable {declarations : List (Declaration ω δ)} {tokens : List Token} {a : Assembly ω δ}

/-- A wrapper end is a token's that belongs to the token of its start, and to no other. -/
theorem Traces.traced {places : List Nat} (h : Traces declarations tokens a [] places)
    (hpaired : Paired a) (hnil : openBefore a.markers a.markers.size = []) :
    Traced declarations tokens a.markers places := by
  have hiff := fun {i e : Nat} =>
    HtmlTemplate.Balanced.closingAt?_eq_some_iff (i := i) (e := e) hpaired.balanced hnil
  have hnodup : places.Nodup := h.increasing.imp Nat.ne_of_lt
  refine ⟨h.length_eq, h.increasing, h.mem_iff, h.fits, fun i e j k hi he => ⟨fun hc => ?_, ?_⟩⟩
  · obtain ⟨j', k', hj', hk', hp⟩ := h.pair i e (hiff.mp hc)
    rw [hi] at hj'
    rw [he] at hk'
    cases hj'
    cases hk'
    exact hp
  · intro hp
    have hlt : e < a.markers.size := h.length_eq ▸ (List.getElem?_eq_some_iff.mp he).1
    have hm : a.markers[e]? = some a.markers[e] := Array.getElem?_eq_getElem hlt
    -- The marker of a closing token is a wrapper end.
    obtain ⟨t, ht, hfits⟩ := h.fits e k _ he hm
    obtain ⟨t', ht', hside⟩ := hp.getElem?_right
    rw [ht] at ht'
    cases ht'
    have hkind : (a.markers[e]).kind = .wrapperEnd := by
      unfold Marker.FitsToken at hfits
      unfold Token.bracket? at hside
      split at hfits <;> simp_all
    obtain ⟨i', ha⟩ := Marker.kind_eq_wrapperEnd_iff.mp hkind
    have he' := openingAt?_eq_some.mpr ⟨_, hm, ha⟩
    obtain ⟨j', k', hj', hk', hp'⟩ := h.pair i' e he'
    rw [he] at hk'
    cases hk'
    rw [← hp.left_unique hp'] at hj'
    have hii : i = i' :=
      (List.getElem?_inj (List.getElem?_eq_some_iff.mp hi).1 hnodup).mp (hi.trans hj'.symm)
    subst hii
    exact hiff.mpr he'

/-- Some marker bounds a wrapper if and only if some wrapper is open somewhere. -/
theorem Paired.maxNesting_eq_zero_iff (h : Paired a) :
    a.maxNesting = 0 ↔ ∀ m ∈ a.markers, m.bracket? = none := by
  constructor
  · intro hzero m hm
    obtain ⟨i, hlt, rfl⟩ := Array.mem_iff_getElem.mp hm
    have hi : a.markers[i]? = some a.markers[i] := Array.getElem?_eq_getElem hlt
    have hnone : ∀ k, k ≤ a.markers.size → openBefore a.markers k = [] := fun k hk =>
      List.length_eq_zero_iff.mp (Nat.le_zero.mp (hzero ▸ h.nesting_le k hk))
    cases hact : (a.markers[i]).action with
    | plain run | attributes run element =>
      simp [Marker.bracket?, Marker.kind, Action.kind, hact]
    | wrapperStart run closing =>
      have hopen := hnone (i + 1) hlt
      rw [openBefore_succ hi, hact] at hopen
      cases hopen
    | wrapperEnd opening =>
      have hhead := h.balanced.end_head i _ opening hi hact
      rw [hnone i (Nat.le_of_lt hlt)] at hhead
      cases hhead
  · intro hall
    obtain ⟨k, hk, hlen⟩ := h.attained
    rw [← hlen, openBefore_eq_of_unmarked (Nat.zero_le k)]
    · rfl
    · intro i m _ _ hm
      have hside := hall m (Array.mem_of_getElem? hm)
      cases hact : m.action <;>
        simp_all [Marker.bracket?, Marker.kind, Action.kind, Marker.boundsWrapper]

theorem wrappersPaired_of_compile? {source : String} {t : Template ω δ}
    (h : compile? source declarations = .ok (a, t)) :
    t.WrappersPaired source declarations a.maxNesting := by
  have hnodup := nodup_of_compile? h
  obtain ⟨counts, hfold, hfinish⟩ := compile?_eq_ok h
  obtain ⟨hopen, -, -, rfl⟩ := finish_eq_ok hfinish
  have hp : Paired a :=
    invariant_of_foldlM (fun _ _ => Paired.edit) hfold (.initial counts declarations)
  obtain ⟨opened, places, htraces⟩ :=
    (Traces.initial counts declarations).foldlM hnodup (.initial counts declarations) hfold
  have hnil : openBefore a.markers a.markers.size = [] := by
    rw [hp.opened, keptWrappers, hopen]
    rfl
  have hstack := htraces.stack
  rw [hopen] at hstack
  cases List.forall₂_nil_right_iff.mp hstack
  have hiff := fun {i e : Nat} =>
    HtmlTemplate.Balanced.closingAt?_eq_some_iff (i := i) (e := e) hp.balanced hnil
  refine
    { closing_iff := fun i e => hiff
      closed := fun i m hm hk => hp.balanced.exists_closing hnil hm hk
      lt := fun i e hc => ⟨hp.balanced.opening_lt (hiff.mp hc), ?_⟩
      apart_or_nested := fun i e i' e' hc hc' =>
        hp.balanced.apart_or_nested (hiff.mp hc) (hiff.mp hc')
      name_eq := fun i e m n hc hm hn => ?_
      matching := ⟨places, htraces.traced hp hnil⟩
      nesting := ⟨?_, ?_⟩
      nesting_eq_zero_iff := hp.maxNesting_eq_zero_iff }
  · obtain ⟨n, hn, -⟩ := openingAt?_eq_some.mp (hiff.mp hc)
    exact (Array.getElem?_eq_some_iff.mp hn).1
  · obtain ⟨n', hn', ha⟩ := openingAt?_eq_some.mp (hiff.mp hc)
    have hsame : n' = n := Option.some.inj (hn'.symm.trans hn)
    obtain ⟨m', hm', hname⟩ := hp.name_eq i e n hn (hsame ▸ ha)
    have hsame' : m' = m := Option.some.inj (hm'.symm.trans hm)
    rw [← hname, hsame']
  · obtain ⟨k, hk, hlen⟩ := hp.attained
    exact ⟨k, hk, by rw [← hlen]; exact (hp.balanced.rise_take hk).symm⟩
  · rintro n ⟨k, hk, rfl⟩
    have hle := hp.nesting_le k hk
    have hrise := hp.balanced.rise_take hk
    show rise Marker.bracket? (a.markers.toList.take k) ≤ a.maxNesting
    omega

end Assembly

/-- The wrapper markers of every compiled template are paired one to one and properly
nested, as the wrapper tokens of the source whose declarations have callbacks, and the
greatest nesting of the template is that of its markers. -/
theorem wrappersPaired_of_compile (source : String) (declarations : List (Declaration ω δ)) :
    (∀ c, Component.compile source declarations = .ok c →
      c.template.WrappersPaired source declarations c.maxNesting) ∧
      ∀ w, Wrapper.compile source declarations = .ok w →
        w.template.WrappersPaired source declarations w.maxNesting := by
  constructor
  · intro c h
    obtain ⟨a, t, ht, -, rfl⟩ := Component.compile_eq_ok h
    exact Assembly.wrappersPaired_of_compile? ht
  · intro w h
    obtain ⟨a, t, content, ht, -, rfl⟩ := Wrapper.compile_eq_ok h
    exact Assembly.wrappersPaired_of_compile? ht

/-- The source `${{outer}a${{fixed}b${{inner}c}}}}}}`. -/
def nestedWrappersSource : String :=
  "$\x7b\x7bouter\x7da$\x7b\x7bfixed\x7db$\x7b\x7binner\x7dc\x7d\x7d\x7d\x7d\x7d\x7d"

/-- Its declarations: three wrappers in each other, of which the middle one has no callback. -/
def nestedWrappers : List (Declaration Unit Unit) :=
  [.wrapper "outer" fun _ => pure (), .fixed "fixed", .wrapper "inner" fun _ => pure ()]

theorem wrappersPaired_of_nestedWrappers :
    ∃ c, Component.compile nestedWrappersSource nestedWrappers = .ok c ∧
      c.template.WrappersPaired nestedWrappersSource nestedWrappers c.maxNesting ∧
      c.maxNesting = 2 ∧ closingAt? c.template.markers 0 = some 3 ∧
      closingAt? c.template.markers 1 = some 2 := by
  have hcompile : (Component.compile nestedWrappersSource nestedWrappers).toOption.any fun c =>
      c.maxNesting = 2 && closingAt? c.template.markers 0 = some 3 &&
        closingAt? c.template.markers 1 = some 2 := by
    decide +kernel
  obtain ⟨c, hc, hvalues⟩ := exists_ok_of_any hcompile
  simp only [Bool.and_eq_true, decide_eq_true_eq] at hvalues
  exact ⟨c, hc, (wrappersPaired_of_compile _ _).1 c hc, hvalues.1.1, hvalues.1.2, hvalues.2⟩

end HtmlTemplate
