import HtmlTemplate.Proofs.Template.Brackets
import HtmlTemplate.Proofs.Template.Growth

/-!
# Pairs of wrapper markers

A wrapper start knows the index of its end, and the end that of the start. In a
compiled template these indices pair the wrapper markers as brackets are paired.

Results:
1. `Balanced.mem_openBefore_iff`: a wrapper is open between its start and its end.
   `Balanced.rise_take`: as many wrappers are open as there are more starts than ends.
2. `Balanced.closingAt?_eq_some_iff`: start and end know of each other.
   `Balanced.apart_or_nested`: two pairs do not cross.
3. `Assembly.Paired`: the names of starts and ends agree, and the greatest nesting is
   met somewhere. Every edit keeps it (`Paired.edit`).
-/

namespace HtmlTemplate

variable {ω δ : Type}

/-- The end of the wrapper that the marker with the index `i` starts. -/
def closingAt? (markers : Array (Marker ω δ)) (i : Nat) : Option Nat :=
  markers[i]?.bind Marker.closing?

/-- The start of the wrapper that the marker with the index `i` ends. -/
def openingAt? (markers : Array (Marker ω δ)) (i : Nat) : Option Nat :=
  markers[i]?.bind Marker.opening?

/-- Which bracket a marker is. -/
def Marker.bracket? (m : Marker ω δ) : Option Bracket :=
  match m.kind with
  | .wrapperStart => some .opening
  | .wrapperEnd => some .closing
  | .plain => none
  | .attributes => none

theorem Marker.closing?_eq_some_iff {m : Marker ω δ} {e : Nat} :
    m.closing? = some e ↔ ∃ run, m.action = .wrapperStart run (some e) := by
  cases hm : m.action <;> simp [Marker.closing?, hm]

theorem Marker.opening?_eq_some_iff {m : Marker ω δ} {i : Nat} :
    m.opening? = some i ↔ m.action = .wrapperEnd i := by
  cases hm : m.action <;> simp [Marker.opening?, hm]

theorem Marker.kind_eq_wrapperStart_iff {m : Marker ω δ} :
    m.kind = .wrapperStart ↔ ∃ run closing, m.action = .wrapperStart run closing := by
  cases hm : m.action <;> simp [Marker.kind, Action.kind, hm]

theorem Marker.kind_eq_wrapperEnd_iff {m : Marker ω δ} :
    m.kind = .wrapperEnd ↔ ∃ opening, m.action = .wrapperEnd opening := by
  cases hm : m.action <;> simp [Marker.kind, Action.kind, hm]

section

variable {markers : Array (Marker ω δ)} {i e : Nat}

theorem closingAt?_eq_some :
    closingAt? markers i = some e ↔
      ∃ m run, markers[i]? = some m ∧ m.action = .wrapperStart run (some e) := by
  simp only [closingAt?, Option.bind_eq_some_iff, Marker.closing?_eq_some_iff]
  exact ⟨fun ⟨m, hm, run, ha⟩ => ⟨m, run, hm, ha⟩, fun ⟨m, run, hm, ha⟩ => ⟨m, hm, run, ha⟩⟩

theorem openingAt?_eq_some :
    openingAt? markers e = some i ↔ ∃ m, markers[e]? = some m ∧ m.action = .wrapperEnd i := by
  simp only [openingAt?, Option.bind_eq_some_iff, Marker.opening?_eq_some_iff]

/-- A wrapper that is open has been open since its start. -/
theorem mem_openBefore_of_le {j k : Nat} (h : i ∈ openBefore markers j) (hi : i < k)
    (hk : k ≤ j) : i ∈ openBefore markers k := by
  induction hk with
  | refl => exact h
  | @step j hkj ih =>
    have hne : i ≠ j := Nat.ne_of_lt (Nat.lt_of_lt_of_le hi hkj)
    refine ih ?_
    unfold openBefore at h
    split at h
    · next m _ =>
      cases hm : m.action with
      | wrapperStart run closing =>
        rw [hm] at h
        exact (List.mem_cons.mp h).resolve_left hne
      | wrapperEnd opening =>
        rw [hm] at h
        exact List.mem_of_mem_tail h
      | plain run | attributes run element =>
        rw [hm] at h
        exact h
    · exact h

/-! ## 1. Open wrappers -/

namespace Balanced

/-- The wrapper that an end closes is the innermost one open before it. -/
theorem openBefore_closing (h : Balanced markers) (he : openingAt? markers e = some i) :
    openBefore markers e = i :: openBefore markers i := by
  obtain ⟨m, hm, ha⟩ := openingAt?_eq_some.mp he
  exact openBefore_of_head (h.end_head e m i hm ha)

theorem openBefore_closing_succ (h : Balanced markers) (he : openingAt? markers e = some i) :
    openBefore markers (e + 1) = openBefore markers i := by
  obtain ⟨m, hm, ha⟩ := openingAt?_eq_some.mp he
  rw [openBefore_succ hm, ha, h.openBefore_closing he]
  rfl

theorem opening_lt (h : Balanced markers) (he : openingAt? markers e = some i) : i < e :=
  lt_of_mem_openBefore (h.openBefore_closing he ▸ List.mem_cons_self)

/-- A wrapper is open between its start and its end. -/
theorem mem_openBefore_iff (h : Balanced markers) (he : openingAt? markers e = some i) (k : Nat) :
    i ∈ openBefore markers k ↔ i < k ∧ k ≤ e := by
  constructor
  · intro hi
    have hik := lt_of_mem_openBefore hi
    refine ⟨hik, Nat.not_lt.mp fun hk => ?_⟩
    have hlt := h.opening_lt he
    have hmem := mem_openBefore_of_le hi (Nat.lt_succ_of_lt hlt) hk
    rw [h.openBefore_closing_succ he] at hmem
    exact Nat.lt_irrefl i (lt_of_mem_openBefore hmem)
  · rintro ⟨hik, hke⟩
    exact mem_openBefore_of_le (h.openBefore_closing he ▸ List.mem_cons_self) hik hke

/-- As many wrappers are open as there are more starts than ends. -/
theorem rise_take (h : Balanced markers) {k : Nat} (hk : k ≤ markers.size) :
    Brackets.rise Marker.bracket? (markers.toList.take k) = (openBefore markers k).length := by
  induction k with
  | zero => rfl
  | succ k ih =>
    have hlt : k < markers.toList.length := by simpa using Nat.lt_of_succ_le hk
    have hm : markers[k]? = some markers[k] := Array.getElem?_eq_getElem hk
    rw [List.take_succ_eq_append_getElem hlt, Brackets.rise_append, ih (Nat.le_of_lt hk),
      openBefore_succ hm, Array.getElem_toList]
    cases ha : markers[k].action with
    | plain run | attributes run element =>
      simp [Marker.bracket?, Marker.kind, Action.kind, ha, Action.openAfter, Bracket.rise]
    | wrapperStart run closing =>
      simp [Marker.bracket?, Marker.kind, Action.kind, ha, Action.openAfter, Bracket.rise]
    | wrapperEnd opening =>
      rw [openBefore_of_head (h.end_head k _ opening hm ha)]
      simp only [Brackets.rise_cons, Brackets.rise_nil, Marker.bracket?, Marker.kind, Action.kind,
        ha, Action.openAfter, List.tail_cons, List.length_cons, Bracket.rise]
      omega

/-! ## 2. Pairs -/

/-- The end of a wrapper knows the start that knows the end. -/
theorem opening_of_closing (h : Balanced markers) (hi : closingAt? markers i = some e) :
    openingAt? markers e = some i := by
  obtain ⟨m, run, hm, ha⟩ := closingAt?_eq_some.mp hi
  rcases h.start_closed i m run (some e) hm ha with ⟨hc, -⟩ | ⟨j, n, hc, hn, hna⟩
  · cases hc
  · cases hc
    exact openingAt?_eq_some.mpr ⟨n, hn, hna⟩

/-- Each wrapper has one end. -/
theorem opening_inj {e' : Nat} (h : Balanced markers) (he : openingAt? markers e = some i)
    (he' : openingAt? markers e' = some i) : e = e' := by
  have hopen : ∀ k, (i < k ∧ k ≤ e) ↔ (i < k ∧ k ≤ e') := fun k =>
    (h.mem_openBefore_iff he k).symm.trans (h.mem_openBefore_iff he' k)
  have h1 := (hopen e).mp ⟨h.opening_lt he, Nat.le_refl e⟩
  have h2 := (hopen e').mpr ⟨h.opening_lt he', Nat.le_refl e'⟩
  omega

/-- If no wrapper is open at the end, every start knows its end. -/
theorem exists_closing (h : Balanced markers) (hnil : openBefore markers markers.size = [])
    {m : Marker ω δ} (hm : markers[i]? = some m) (hk : m.kind = .wrapperStart) :
    ∃ e, closingAt? markers i = some e := by
  obtain ⟨run, closing, ha⟩ := Marker.kind_eq_wrapperStart_iff.mp hk
  rcases h.start_closed i m run closing hm ha with ⟨-, hmem⟩ | ⟨j, n, rfl, -⟩
  · rw [hnil] at hmem
    cases hmem
  · exact ⟨j, closingAt?_eq_some.mpr ⟨m, run, hm, ha⟩⟩

/-- Start and end of a wrapper know of each other. -/
theorem closingAt?_eq_some_iff (h : Balanced markers)
    (hnil : openBefore markers markers.size = []) :
    closingAt? markers i = some e ↔ openingAt? markers e = some i := by
  refine ⟨h.opening_of_closing, fun he => ?_⟩
  have hmem : i ∈ openBefore markers e := h.openBefore_closing he ▸ List.mem_cons_self
  obtain ⟨-, m, run, closing, hm, ha⟩ := start_of_mem_openBefore hmem
  have hk := Marker.kind_eq_wrapperStart_iff.mpr ⟨run, closing, ha⟩
  obtain ⟨e', he'⟩ := h.exists_closing hnil hm hk
  rw [he', h.opening_inj he (h.opening_of_closing he')]

/-- Two wrappers are the same, apart from each other, or one is in the other. -/
theorem apart_or_nested {i' e' : Nat} (h : Balanced markers)
    (he : openingAt? markers e = some i) (he' : openingAt? markers e' = some i') :
    (i = i' ∧ e = e') ∨ e < i' ∨ e' < i ∨ (i < i' ∧ e' < e) ∨ (i' < i ∧ e < e') := by
  -- A wrapper that starts in another one ends in it.
  have hinside : ∀ {i e i' e' : Nat}, openingAt? markers e = some i →
      openingAt? markers e' = some i' → i < i' → i' < e → e' < e := by
    intro i e i' e' he he' hi hie
    refine Nat.not_le.mp fun hle => ?_
    have hmem := (h.mem_openBefore_iff he' e).mpr ⟨hie, hle⟩
    rw [h.openBefore_closing he] at hmem
    rcases List.mem_cons.mp hmem with rfl | hmem
    · exact Nat.lt_irrefl _ hi
    · exact Nat.lt_asymm hi (lt_of_mem_openBefore hmem)
  -- No marker is both a start and an end.
  have hapart : ∀ {i e i' e' : Nat}, openingAt? markers e = some i →
      openingAt? markers e' = some i' → i' ≠ e := by
    rintro i e i' e' he he' rfl
    obtain ⟨m, hm, ha⟩ := openingAt?_eq_some.mp he
    obtain ⟨-, n, run, closing, hn, hna⟩ := start_of_mem_openBefore
      (h.openBefore_closing he' ▸ List.mem_cons_self)
    rw [hm] at hn
    cases hn
    rw [ha] at hna
    cases hna
  have hlt := h.opening_lt he
  have hlt' := h.opening_lt he'
  have hne := hapart he he'
  have hne' := hapart he' he
  rcases Nat.lt_trichotomy i i' with hi | rfl | hi
  · rcases Nat.lt_or_ge e i' with hei | hei
    · exact .inr (.inl hei)
    · have := hinside he he' hi (by omega)
      omega
  · exact .inl ⟨rfl, h.opening_inj he he'⟩
  · rcases Nat.lt_or_ge e' i with hei | hei
    · exact .inr (.inr (.inl hei))
    · have := hinside he' he hi (by omega)
      omega

end Balanced

end

/-! ## 3. Names and the greatest nesting -/

namespace Assembly

variable {a b : Assembly ω δ}

/-- What is there stays open. -/
theorem Grows.openBefore_eq (h : Grows a b) {k : Nat} (hk : k ≤ a.markers.size) :
    openBefore b.markers k = openBefore a.markers k := by
  refine openBefore_congr fun j hj opened => ?_
  have hm : a.markers[j]? = some a.markers[j] :=
    Array.getElem?_eq_getElem (Nat.lt_of_lt_of_le hj hk)
  rcases h.marker j _ hm with hb | ⟨closing, hb⟩
  · rw [hb, hm]
  · rw [hb, hm]
    simp [openAfter_closedBy]

/-- A wrapper end has the name of its start, and the greatest nesting is met. -/
structure Paired (a : Assembly ω δ) : Prop extends Nested a where
  name_eq : ∀ (i e : Nat) (n : Marker ω δ), a.markers[e]? = some n → n.action = .wrapperEnd i →
    ∃ m : Marker ω δ, a.markers[i]? = some m ∧ m.name = n.name
  attained : ∃ k, k ≤ a.markers.size ∧ (openBefore a.markers k).length = a.maxNesting

namespace Paired

theorem initial (counts : MarkerCounts) (declarations : List (Declaration ω δ)) :
    Paired (Assembly.initial counts declarations) :=
  { Nested.initial counts declarations with
    name_eq := fun i e n hn => by simp [Assembly.initial] at hn
    attained := ⟨0, Nat.le_refl _, rfl⟩ }

/-- A marker that stays keeps its name. -/
theorem exists_name_eq (h : Grows a b) {i : Nat} {m : Marker ω δ} (hm : a.markers[i]? = some m) :
    ∃ m' : Marker ω δ, b.markers[i]? = some m' ∧ m'.name = m.name := by
  rcases h.marker i m hm with hb | ⟨closing, hb⟩
  · exact ⟨m, hb, rfl⟩
  · exact ⟨_, hb, m.name_closedBy closing⟩

/-- The wrapper ends that are new in `b` have the names of their starts. -/
def NamesNewEnds (a b : Assembly ω δ) : Prop :=
  ∀ (i e : Nat) (n : Marker ω δ), a.markers.size ≤ e → b.markers[e]? = some n →
    n.action = .wrapperEnd i → ∃ m : Marker ω δ, a.markers[i]? = some m ∧ m.name = n.name

theorem namesNewEnds_of_eq (hb : b.markers = a.markers) : NamesNewEnds a b := by
  intro i e n hle hn
  rw [hb, Array.getElem?_eq_none hle] at hn
  cases hn

theorem namesNewEnds_of_push {m : Marker ω δ} (hb : b.markers = a.markers.push m)
    (hm : ∀ opening, m.action ≠ .wrapperEnd opening) : NamesNewEnds a b := by
  intro i e n hle hn ha
  rw [hb] at hn
  rcases getElem?_push_eq_some hn with hn | ⟨-, rfl⟩
  · rw [Array.getElem?_eq_none hle] at hn
    cases hn
  · exact absurd ha (hm i)

/-- A new wrapper end takes its name from the start that it closes. -/
theorem namesNewEnds_closeWrapper {i : Nat} {rest : List (Option Nat)} (h : Nested a)
    (ho : a.openWrappers = some i :: rest) (r : TagReader) :
    NamesNewEnds a ({ a with reader := r, openWrappers := rest }.closeWrapper i) := by
  have hmem : i ∈ openBefore a.markers a.markers.size := by
    rw [h.opened]
    simp [keptWrappers, ho]
  obtain ⟨-, m, run, closing, hm, -⟩ := start_of_mem_openBefore hmem
  intro j e n hle hn ha
  obtain ⟨n₀, hn₀, rfl⟩ := getElem?_closedBy_eq_some hn
  rcases getElem?_push_eq_some hn₀ with hn₀ | ⟨rfl, rfl⟩
  · rw [Array.getElem?_eq_none hle] at hn₀
    cases hn₀
  · have hji : j = i := by
      split at ha
      · rw [action_closedBy_eq_wrapperEnd] at ha
        cases ha
        rfl
      · cases ha
        rfl
    subst hji
    refine ⟨m, hm, ?_⟩
    split <;> simp [hm]

/-- What is left to show of an edit: that new wrapper ends have the right name, and that
a greater nesting is met. -/
theorem of_edit (h : Paired a) (he : Edit a b) (hnew : NamesNewEnds a b)
    (hmax : b.maxNesting = a.maxNesting ∨
      ∃ k, k ≤ b.markers.size ∧ (openBefore b.markers k).length = b.maxNesting) : Paired b := by
  have hgrows := Grows.edit he
  refine { Nested.edit he h.toNested with name_eq := ?_, attained := ?_ }
  · intro i e n hn ha
    have hold : ∃ m : Marker ω δ, a.markers[i]? = some m ∧ m.name = n.name := by
      rcases Nat.lt_or_ge e a.markers.size with hlt | hle
      · have hn₀ : a.markers[e]? = some a.markers[e] := Array.getElem?_eq_getElem hlt
        rcases hgrows.marker e _ hn₀ with hb | ⟨closing, hb⟩
        · rw [hn] at hb
          cases hb
          exact h.name_eq i e _ hn₀ ha
        · rw [hn] at hb
          cases hb
          rw [action_closedBy_eq_wrapperEnd] at ha
          obtain ⟨m, hm, hname⟩ := h.name_eq i e _ hn₀ ha
          exact ⟨m, hm, by rw [hname, Marker.name_closedBy]⟩
      · exact hnew i e n hle hn ha
    obtain ⟨m, hm, hname⟩ := hold
    obtain ⟨m', hm', hname'⟩ := exists_name_eq hgrows hm
    exact ⟨m', hm', hname'.trans hname⟩
  · rcases hmax with hmax | hmax
    · obtain ⟨k, hk, hlen⟩ := h.attained
      exact ⟨k, Nat.le_trans hk hgrows.size_le, by rw [hgrows.openBefore_eq hk, hlen, hmax]⟩
    · exact hmax

theorem placed (h : Paired a) {d : Declaration ω δ} {isWrapper : Bool}
    (hp : Placed a d isWrapper b) : Paired b := by
  refine h.of_edit (.placed hp) ?_ ?_
  · cases hp with
    | plain run => exact namesNewEnds_of_push rfl (by simp)
    | attributes run => exact namesNewEnds_of_push rfl (by simp)
    | wrapper run => exact namesNewEnds_of_push rfl (by simp)
    | folded => exact namesNewEnds_of_eq rfl
    | foldedWrapper => exact namesNewEnds_of_eq rfl
  · cases hp with
    | wrapper run =>
      rcases Nat.le_total (a.keptDepth + 1) a.maxNesting with hle | hle
      · exact .inl (Nat.max_eq_left hle)
      · refine .inr ⟨a.markers.size + 1, Nat.le_of_eq (Array.size_push _).symm, ?_⟩
        show (openBefore (a.markers.push _) (a.markers.size + 1)).length =
          max a.maxNesting (a.keptDepth + 1)
        rw [openBefore_push_size, h.opened, Nat.max_eq_right hle, h.keptDepth]
        rfl
    | _ => exact .inl rfl

theorem edit (he : Edit a b) (h : Paired a) : Paired b := by
  cases he with
  | placed hp => exact h.placed hp
  | close ho hin hcross =>
    exact h.of_edit (.close ho hin hcross) (namesNewEnds_closeWrapper h.toNested ho _) (.inl rfl)
  | bytes | declaration | content | unfold =>
    exact h.of_edit (by constructor <;> assumption) (namesNewEnds_of_eq rfl) (.inl rfl)

end Paired

end Assembly

end HtmlTemplate
